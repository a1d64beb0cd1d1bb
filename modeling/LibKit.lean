import LibKit.Jitson.Access
import LibKit.Jitson.Borrowing
import LibKit.Jitson.Bounded
import LibKit.Jitson.Building
import LibKit.Jitson.Comparing
import LibKit.Jitson.Completeness
import LibKit.Jitson.Concatenation
import LibKit.Jitson.Duplicating
import LibKit.Jitson.Elements
import LibKit.Jitson.Equality
import LibKit.Jitson.Expanding
import LibKit.Jitson.Filling
import LibKit.Jitson.Frames
import LibKit.Jitson.Gathering
import LibKit.Jitson.Grammar
import LibKit.Jitson.Inclusion
import LibKit.Jitson.Inserting
import LibKit.Jitson.Intersect
import LibKit.Jitson.Intersection
import LibKit.Jitson.Layout
import LibKit.Jitson.Leaving
import LibKit.Jitson.Lockstep
import LibKit.Jitson.Lookup
import LibKit.Jitson.Meaning
import LibKit.Jitson.Members
import LibKit.Jitson.Memory
import LibKit.Jitson.Numerals
import LibKit.Jitson.Observing
import LibKit.Jitson.Operands
import LibKit.Jitson.Operators
import LibKit.Jitson.Parser
import LibKit.Jitson.Printed
import LibKit.Jitson.Printing
import LibKit.Jitson.Reading
import LibKit.Jitson.Retrying
import LibKit.Jitson.RoundTrip
import LibKit.Jitson.Sameness
import LibKit.Jitson.Scalars
import LibKit.Jitson.Shapes
import LibKit.Jitson.Sorting
import LibKit.Jitson.Soundness
import LibKit.Jitson.Source
import LibKit.Jitson.Spacing
import LibKit.Jitson.Stack
import LibKit.Jitson.Strictness
import LibKit.Jitson.Strings
import LibKit.Jitson.Surroundings
import LibKit.Jitson.Testing
import LibKit.Jitson.Token
import LibKit.Jitson.Tree
import LibKit.Jitson.Truth
import LibKit.Jitson.Unwinding
import LibKit.Jitson.Visitors
import LibKit.Jitson.Words
import LibKit.Jitson.WriteRead
import LibKit.Jitson.Writing
import LibKit.KitAlloc.Checking
import LibKit.KitAlloc.Counting
import LibKit.KitAlloc.Model
import LibKit.KitAlloc.Sizes
import LibKit.KitBaseEncode.Accepting
import LibKit.KitBaseEncode.Model
import LibKit.KitBaseEncode.Reading
import LibKit.KitBaseEncode.RoundTrip
import LibKit.KitBaseEncode.Skipping
import LibKit.KitBits.Model
import LibKit.KitBits.Prefixes
import LibKit.KitCounters.Conservation
import LibKit.KitCounters.Model
import LibKit.KitCounters.Reports
import LibKit.KitCounters.Slots
import LibKit.KitGraphitelog.Lines
import LibKit.KitGraphitelog.Model
import LibKit.KitId.Model
import LibKit.KitId.RoundTrip
import LibKit.KitRandom.Chacha
import LibKit.KitRandom.CounterMode
import LibKit.KitRandom.Erasing
import LibKit.KitRandom.Model
import LibKit.KitRandom.Pieces
import LibKit.KitRandom.Stream
import LibKit.KitRandom.Uniform
import LibKit.KitSafeRw.Model
import LibKit.KitSafeRw.Pipe
import LibKit.KitSortedArray.Failing
import LibKit.KitSortedArray.Intersecting
import LibKit.KitSortedArray.Model
import LibKit.KitSortedArray.Search
import LibKit.KitSortedArray.SortedSet
import LibKit.KitSortedArray.Visiting
import LibKit.KitStrto.Model
import LibKit.KitStrto.Numerals
import LibKit.KitTensor.Convolving
import LibKit.KitTensor.Loading
import LibKit.KitTensor.Loops
import LibKit.KitTensor.Model
import LibKit.KitTensor.Permuting
import LibKit.KitTensor.Products
import LibKit.KitTensor.Shapes
import LibKit.KitTensor.Storing
import LibKit.KitTimezone.Locking
import LibKit.KitTimezone.Model
import LibKit.Support.Bytes
import LibKit.Support.CString
import LibKit.Support.Comparison
import LibKit.Support.Grouping
import LibKit.Support.Guarded
import LibKit.Support.Halving
import LibKit.Support.Keystream
import LibKit.Support.Linked
import LibKit.Support.Numeral
import LibKit.Support.Radix
import LibKit.Support.Results
import LibKit.Support.Ring
import LibKit.Support.Runs
import LibKit.Support.Visits
import LibKit.Support.Words
import LibKit.SxeCdb.Chains
import LibKit.SxeCdb.Checks
import LibKit.SxeCdb.Counters
import LibKit.SxeCdb.Ensemble
import LibKit.SxeCdb.Growth
import LibKit.SxeCdb.Headers
import LibKit.SxeCdb.Kvdata
import LibKit.SxeCdb.Linking
import LibKit.SxeCdb.Lookup
import LibKit.SxeCdb.Model
import LibKit.SxeCdb.Pool
import LibKit.SxeCdb.Records
import LibKit.SxeCdb.Relinking
import LibKit.SxeCdb.Retrying
import LibKit.SxeCdb.Sheets
import LibKit.SxeCdb.Splitting
import LibKit.SxeCdb.Store
import LibKit.SxeCdb.Tallies
import LibKit.SxeCdb.Uids
import LibKit.SxeCdb.Walking
import LibKit.SxeDict.Model
import LibKit.SxeDict.Refinement
import LibKit.SxeDict.Walking
import LibKit.SxeFactory.Holding
import LibKit.SxeFactory.Model
import LibKit.SxeHash.Classic
import LibKit.SxeHash.Finding
import LibKit.SxeHash.Model
import LibKit.SxeHash.Multimap
import LibKit.SxeHash.Refinement
import LibKit.SxeHex.Conversion
import LibKit.SxeHex.Model
import LibKit.SxeList.Deque
import LibKit.SxeList.Model
import LibKit.SxeList.Refinement
import LibKit.SxeLog.Dump
import LibKit.SxeLog.Levels
import LibKit.SxeLog.Lines
import LibKit.SxePool.Model
import LibKit.SxePool.Queues
import LibKit.SxePool.Refinement
import LibKit.SxePool.States
import LibKit.SxePool.Timed
import LibKit.SxePool.Timeouts
import LibKit.SxePool.Walks
import LibKit.SxeSpinlock.Exclusion
import LibKit.SxeSpinlock.Model
import LibKit.SxeStr.Encoding
import LibKit.SxeStr.Model
import LibKit.SxeStr.Printable
import LibKit.SxeStr.Searching
import LibKit.SxeThread.Freeing
import LibKit.SxeThread.Model
