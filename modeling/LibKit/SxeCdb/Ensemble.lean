import LibKit.SxeCdb.Walking
import LibKit.SxeSpinlock.Exclusion

namespace LibKit
namespace SxeCdb

/-!
# Ensembles

An ensemble has up to 256 instances with a spinlock each, and a key goes to the
instance that a word of its hash names.  Threads call the functions of an ensemble
in any order of their steps.  Each call takes the lock of one instance, and the
key, its hash and the buffer for copies belong to the thread, so the instances go
through their calls one at a time.
-/

/-- The uid of an ensemble, with the number of the instance. -/
structure EnsembleUid (cdbCount : Nat) where
  cdbInstance : Fin cdbCount
  part : Uid
deriving DecidableEq

/-- The functions of a locked ensemble.  A caller of
`sxe_cdb_ensemble_get_hkv_raw_locked` only reads the record, and then calls
`sxe_cdb_ensemble_get_hkv_raw_unlock`. -/
inductive EnsembleCall (cdbCount : Nat) where
  | putVal (key val : List UInt8)
  | inc (key : List UInt8) (countsList : Nat) (dummy : Fin 12 → UInt8)
  | getHkvRawLocked (key : List UInt8)
  | getUid (key : List UInt8)
  | getUidHkv (uid : EnsembleUid cdbCount)

inductive EnsembleReply (cdbCount : Nat) where
  | uid (uid : Option (EnsembleUid cdbCount))
  | count (count : Nat)
  | pos (pos : Option Nat)
  | hkv (hkv : Option HkvCopy)
deriving DecidableEq

section

variable {cdbCount : Nat} [NeZero cdbCount]

def EnsembleCall.route (sum : List UInt8 → Fin 8 → UInt16) : EnsembleCall cdbCount → Fin cdbCount
  | .putVal key _ => instanceOf sum key
  | .inc key _ _ => instanceOf sum key
  | .getHkvRawLocked key => instanceOf sum key
  | .getUid key => instanceOf sum key
  | .getUidHkv uid => uid.cdbInstance

/-- A uid that exists gets the number of its instance. -/
def withInstance (sum : List UInt8 → Fin 8 → UInt16) (key : List UInt8) (uid : Option Uid) :
    Option (EnsembleUid cdbCount) :=
  uid.map fun part => ⟨instanceOf sum key, part⟩

/-- The body of a call on its instance, with the buffer of the thread. -/
def ensembleServe (sum : List UInt8 → Fin 8 → UInt16) (cdb : Instance) :
    Tls × EnsembleCall cdbCount → Option ((EnsembleReply cdbCount × Tls) × Instance)
  | (tls, .putVal key val) =>
      (SxeCdb.putVal cdb (prepare sum key) val).map fun (uid, cdb) => ((.uid (withInstance sum key uid), tls), cdb)
  | (tls, .inc key countsList dummy) =>
      (SxeCdb.inc cdb (prepare sum key) countsList dummy).map fun (count, cdb) => ((.count count, tls), cdb)
  | (tls, .getHkvRawLocked key) => some ((.pos (getHkvRaw cdb (prepare sum key)), tls), cdb)
  | (tls, .getUid key) => some ((.uid (withInstance sum key (SxeCdb.getUid cdb (prepare sum key))), tls), cdb)
  | (tls, .getUidHkv uid) => (SxeCdb.getUidHkv cdb tls uid.part).map fun (hkv, tls) => ((.hkv hkv, tls), cdb)

/-- A call to the ensemble as one to the instance. -/
def EnsembleCall.request : EnsembleCall cdbCount → Request
  | .putVal key val => .store (.put key val)
  | .inc key countsList dummy => .store (.inc key countsList dummy)
  | .getHkvRawLocked key => .getHkv key
  | .getUid key => .getUid key
  | .getUidHkv uid => .getUidHkv uid.part

def EnsembleReply.reply : EnsembleCall cdbCount → EnsembleReply cdbCount → Reply
  | .putVal _ _, .uid made => .stored (.uid (made.map EnsembleUid.part))
  | _, .uid found => .uid (found.map EnsembleUid.part)
  | _, .count tally => .stored (.count tally)
  | _, .pos found => .pos found
  | _, .hkv copy => .hkv copy

def requests (history : History (Tls × EnsembleCall cdbCount) (EnsembleReply cdbCount × Tls)) : History Request Reply :=
  history.map fun entry => (entry.1.2.request, entry.2.1.reply entry.1.2)

variable {sum : List UInt8 → Fin 8 → UInt16} {cdb next : Instance} {tls after : Tls} {call : EnsembleCall cdbCount}
  {reply : EnsembleReply cdbCount}

/-- The requests that an instance got are reflected in it, and the uids that it returned name it. -/
structure Share (sum : List UInt8 → Fin 8 → UInt16) (history : History (Tls × EnsembleCall cdbCount)
    (EnsembleReply cdbCount × Tls))
    (cdb : Instance) : Prop where
  served : ∃ log chains free tally, Served sum (requests history) (cdb, ⟨none, 0⟩) log chains free tally
  own : ∀ entry ∈ history, ∀ uid, entry.2.1 = .uid (some uid) → uid.cdbInstance = entry.1.2.route sum

variable {history : History (Tls × EnsembleCall cdbCount) (EnsembleReply cdbCount × Tls)}

theorem Tls.Ready.bufferOk (ready : tls.Ready) {log : Log} {used : Nat} (stored : Stored cdb.kvdata used log)
    (bound : used < 2 ^ 32) (indexed : Indexed sum cdb log.entries) (uid : Uid) : BufferOk cdb tls uid := by
  intro isUsed none
  rcases (indexed.cells _ _ _ isUsed).2 with ⟨entry, logged, -⟩
  have logged : log.entries (cellOf cdb uid).hkvPos = some entry := logged
  rcases stored.unpack logged with ⟨header, found, -⟩
  have total : entry.length = header + entry.key.length + entry.valLen := by
    rw [Entry.length, found]
    rfl
  have bounds := headerLen_bounds found
  rw [ready.made none, hkvLen_eq stored bound logged]
  omega

theorem copyHkvToTls_fresh {hkvPos : Nat} (fresh : tls.hkv = none → tls.hkvLenMax = 0)
    (copied : copyHkvToTls cdb hkvPos tls = some after) : after.hkv = none → after.hkvLenMax = 0 := by
  have grown : (if hkvLen cdb.kvdata hkvPos > tls.hkvLenMax then tls.realloc (hkvLen cdb.kvdata hkvPos)
    else tls).hkv = none →
      (if hkvLen cdb.kvdata hkvPos > tls.hkvLenMax then tls.realloc (hkvLen cdb.kvdata hkvPos)
        else tls).hkvLenMax = 0 := by
    by_cases short : hkvLen cdb.kvdata hkvPos > tls.hkvLenMax
    · rw [if_pos short]
      intro absent
      cases absent
    · rw [if_neg short]
      exact fresh
  simp only [copyHkvToTls] at copied
  generalize (if hkvLen cdb.kvdata hkvPos > tls.hkvLenMax then tls.realloc (hkvLen cdb.kvdata hkvPos) else tls) = room
    at copied grown
  intro absent
  split at copied
  · rcases Option.bind_eq_some_iff.mp copied with ⟨buffer, -, kept⟩
    split at kept
    · cases kept
      cases absent
    · cases kept
  · cases copied
    exact grown absent

theorem Tls.Ready.after_get (ready : tls.Ready) {log : Log} {used : Nat} (stored : Stored cdb.kvdata used log)
    (bound : used < 2 ^ 32) (indexed : Indexed sum cdb log.entries) {uid : Uid} {copy : Option HkvCopy}
    (got : SxeCdb.getUidHkv cdb tls uid = some (copy, after)) : after.Ready := by
  refine ⟨getUidHkv_sized stored bound indexed ready.sized (ready.bufferOk stored bound indexed uid) got, ?_⟩
  rw [SxeCdb.getUidHkv] at got
  split at got
  · split at got
    · rcases Option.map_eq_some_iff.mp got with ⟨made, copied, same⟩
      cases same
      exact copyHkvToTls_fresh ready.made copied
    · cases got
      exact ready.made
  · cases got

theorem Share.ready (share : Share sum history cdb) (ready : tls.Ready)
    (served : ensembleServe sum cdb (tls, call) = some ((reply, after), next)) : after.Ready := by
  rcases share.served with ⟨log, chains, free, tally, before⟩
  have bound := Nat.lt_of_le_of_lt before.kept.sized.used before.kept.sized.bound
  cases call with
  | putVal key val =>
      rcases Option.map_eq_some_iff.mp served with ⟨⟨uid, made⟩, put, same⟩
      cases same
      exact ready
  | inc key countsList dummy =>
      rcases Option.map_eq_some_iff.mp served with ⟨⟨count, made⟩, counted, same⟩
      cases same
      exact ready
  | getHkvRawLocked key =>
      cases served
      exact ready
  | getUid key =>
      cases served
      exact ready
  | getUidHkv uid =>
      rcases Option.map_eq_some_iff.mp served with ⟨⟨hkv, made⟩, got, same⟩
      cases same
      exact ready.after_get before.kept.stored bound before.kept.indexed got

/-! ## The ensemble -/

variable {Thread : Type}

section

variable [DecidableEq Thread] {countMax : Nat} {tid : Thread → Int} {start : Fin cdbCount → Instance}
  {sys : SxeSpinlock.System (Fin cdbCount) Thread Instance Tls (EnsembleCall cdbCount) (EnsembleReply cdbCount)}

end

end

/-! ### A run of two threads -/

end SxeCdb
end LibKit
