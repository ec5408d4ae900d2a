import Mistlib.Async.Discipline
import Mistlib.Storage.Engine

/-!
# What each task of the engine is about

The note on a task says which of the engine's windows it is in: a block between being tracked
and being stored, victims between being chosen and being deleted, a registry change between
being made and being written. The code reads none of it.

`contract` is what the engine's code keeps to, window by window. `A` is what is known of the
blocks in the store: nothing, or that each is the block of its content id. What holds of every
interleaving is proved from the contract in the modules that follow.
-/

namespace Mistlib.Storage

open Async

inductive Write where
  | idle
  /-- Tracked, and still to be stored: a fetch. -/
  | tracked (cid : Cid)
  /-- Being stored, and still to be tracked: an add. -/
  | storing (cid : Cid)
  /-- Stored, and still to be tracked. -/
  | stored (cid : Cid)
deriving DecidableEq

/-- `pin_registry_io` as a task sees it. -/
inductive Lock where
  | free
  | held
  /-- Held, with the registry found not to be loaded. -/
  | unloaded
  /-- Held, with what the metadata store answered. -/
  | fetched (pins : Option Bytes)
deriving DecidableEq

/-- A change of the pin registry. Snapshots are numbered in the order they
are taken. -/
inductive Phase where
  | idle
  /-- A root has been pinned and the snapshot is still to be taken. -/
  | changed (root : Cid)
  /-- The snapshot with the new pin is being written. -/
  | saving (root : Cid) (number : Nat) (data : Bytes)
  /-- The pin is written, or was found in the registry. -/
  | settled (root : Cid)
  /-- A root has been unpinned and the snapshot is being written. -/
  | forgetting (root : Cid) (number : Nat) (data : Bytes)
  /-- That snapshot is written and the protected set is still to be
  published. -/
  | forgotten (root : Cid)
  | relaxed (root : Cid)
  | failed
deriving DecidableEq

structure Note where
  /-- The task is one of the engine's calls, not one of their futures. -/
  main : Bool
  /-- It has started futures. -/
  spawned : Bool
  /-- The root that a `pin` call is about. -/
  pinning : Option Cid
  write : Write
  /-- Victims whose delete is still to be issued. -/
  condemned : List Cid
  /-- The victim whose delete is issued, and whether it is gone. -/
  deleting : Option (Cid × Bool)
  /-- Within capacity, with no await since. -/
  calm : Bool
  /-- The registry has been found loaded. -/
  seen : Bool
  lock : Lock
  phase : Phase

/-- What is written down about the whole run. -/
structure Ledger where
  /-- The number of registry snapshots taken. -/
  snapshots : Nat
  /-- The number of the last snapshot that was written. -/
  landed : Nat
  /-- The pins that a caller was promised, as the registry listed them. -/
  promises : List (Cid × List Cid)

def Ledger.new : Ledger := ⟨0, 0, []⟩

namespace Note

def start {κ : Kind} (job : Job κ) : Note where
  main := job.entry
  spawned := false
  pinning := match job with
    | .pin root => some root
    | _ => none
  write := .idle
  condemned := []
  deleting := none
  calm := false
  seen := false
  lock := .free
  phase := .idle

def saw (n : Note) (loaded : Bool) : Note :=
  { n with
    seen := n.seen || loaded
    lock := if n.lock = .held ∧ loaded = false then .unloaded else n.lock }

/-- The registry has been asked for a root. -/
def found (n : Note) (root : Cid) (found : Bool) : Note :=
  { n with phase := if n.pinning = some root ∧ found = true then .settled root else n.phase }

def op : (o : Op) → o.Res → World → Ledger → Note → Ledger × Note
  | .touch _, _, _, g, n => (g, n)
  | .trackBlock cid _ _, _, _, g, n =>
    (g, { n with write := if n.write = .stored cid then .idle else .tracked cid, calm := false })
  | .untrackBlock _, _, _, g, n => (g, { n with deleting := none, calm := false })
  | .overCapacity, exceeded, _, g, n => (g, { n with calm := !exceeded })
  | .victims _, chosen, _, g, n
  | .decayVictims _, chosen, _, g, n => (g, { n with condemned := chosen, calm := false })
  | .registryLoaded, loaded, _, g, n => (g, n.saw loaded)
  | .isPinned root, found, _, g, n => (g, n.found root found)
  | .protect root _, _, _, g, n => (g, { n with phase := .changed root })
  | .forget root, data, _, g, n =>
    ({ g with snapshots := g.snapshots + 1 },
      { n with phase := .forgetting root (g.snapshots + 1) data })
  | .snapshot, data, _, g, n =>
    ({ g with snapshots := g.snapshots + 1 },
      { n with phase := match n.phase with
          | .changed root => .saving root (g.snapshots + 1) data
          | phase => phase })
  | .install _, _, _, g, n => (g, { n with seen := true, lock := .held })
  | .republish, _, _, g, n =>
    (g, { n with phase := match n.phase with
        | .forgotten root => .relaxed root
        | phase => phase })
  | .unlockIo, _, _, g, n => (g, { n with lock := .free })
  | .withCapacity _, _, _, g, n => (g, n)

def issue : Call → Note → Note
  | .storeBlock cid _, n =>
    { n with write := if n.write = .tracked cid then .tracked cid else .storing cid, calm := false }
  | .deleteBlock cid, n =>
    { n with condemned := n.condemned.tail, deleting := some (cid, false), calm := false }
  | _, n => { n with calm := false }

def effect : (c : Call) → c.Ans → Ledger → Note → Ledger × Note
  | .storeBlock _ _, .ok _, g, n =>
    (g, { n with write := match n.write with
        | .storing cid => .stored cid
        | _ => .idle })
  | .storeBlock _ _, .error _, g, n =>
    (g, { n with write := match n.write with
        | .storing _ => .idle
        | write => write })
  | .deleteBlock cid, .ok _, g, n => (g, { n with deleting := some (cid, true) })
  | .deleteBlock _, .error _, g, n => (g, { n with deleting := none })
  | .metaGet, .ok pins, g, n => (g, { n with lock := .fetched pins })
  | .metaSet _, .ok _, g, n =>
    match n.phase with
    | .saving root number _ => ({ g with landed := number }, { n with phase := .settled root })
    | .forgetting root number _ => ({ g with landed := number }, { n with phase := .forgotten root })
    | _ => (g, n)
  | .metaSet _, .error _, g, n => (g, { n with phase := .failed })
  | .lockIo, _, g, n => (g, { n with lock := .held })
  | _, _, g, n => (g, n)

/-! What a task is does not change. -/

@[simp] theorem main_op (o : Op) (r : o.Res) (w : World) (g : Ledger) (n : Note) :
    (op o r w g n).2.main = n.main := by
  cases o <;> rfl

@[simp] theorem main_issue (c : Call) (n : Note) : (issue c n).main = n.main := by
  cases c <;> rfl

@[simp] theorem main_effect (c : Call) (a : c.Ans) (g : Ledger) (n : Note) :
    (effect c a g n).2.main = n.main := by
  unfold effect
  split
  case _ => rfl
  all_goals first | rfl | (split <;> rfl)

end Note

/-- A pin of `root` is promised, with the blocks the registry lists for it. -/
def Ledger.promise (g : Ledger) (w : World) (root : Cid) : Ledger :=
  match w.pinRegistry.roots.get root with
  | some cids => { g with promises := (root, cids) :: g.promises }
  | none => g

/-- What a call's return means: `pin` and `add_pinned` promise a pin, `unpin`
takes it back. -/
def Ledger.finish : {κ : Kind} → Job κ → Except MistError κ.Out → World → Ledger → Ledger
  | _, .pin root, .ok _, w, g | _, .addPinned _ _, .ok root, w, g => g.promise w root
  | _, .unpin root, .ok _, _, g =>
    { g with promises := g.promises.filter fun p => decide (p.1 ≠ root) }
  | _, _, _, _, g => g

section Ledger

variable {κ : Kind} (job : Job κ) (r : Except MistError κ.Out) (w : World) (g : Ledger)

theorem Ledger.snapshots_finish : (Ledger.finish job r w g).snapshots = g.snapshots := by
  unfold Ledger.finish Ledger.promise
  split
  · split <;> rfl
  · split <;> rfl
  · rfl
  · rfl

theorem Ledger.landed_finish : (Ledger.finish job r w g).landed = g.landed := by
  unfold Ledger.finish Ledger.promise
  split
  · split <;> rfl
  · split <;> rfl
  · rfl
  · rfl

end Ledger

def observer : Observer engineSig World Ledger Note where
  start := Note.start
  op := Note.op
  issue := Note.issue
  effect := Note.effect
  spawn n := { n with spawned := true }
  join kid n := { n with write := kid.write }
  finish := Ledger.finish

/-- What a pin of `root` protects: the chunks of a manifest held under
`root`, and `root`. What is known of a block held under a content id is
`A`. -/
def Lists (setting : Setting) (A : Cid → Bytes → Prop) (root : Cid) (cids : List Cid) : Prop :=
  ∃ data manifest, A root data ∧
    setting.manifests.fromSlice data = .ok manifest ∧ cids = manifest.chunks ++ [root]

def Phase.Resting : Phase → Prop
  | .changed _ | .saving _ _ _ | .forgetting _ _ _ | .forgotten _ => False
  | _ => True

namespace Note

structure Quiet (n : Note) : Prop where
  condemned : n.condemned = []
  deleting : n.deleting = none

end Note

/-- The window a task has to be in for an operation. -/
def contractOp (setting : Setting) (A : Cid → Bytes → Prop) (n : Note) : Op → Prop
  | .trackBlock cid size _ => (n.write = .stored cid ∨ n.write = .idle) ∧
      ∃ data : Bytes, A cid data ∧ data.length = size
  | .untrackBlock cid => n.deleting = some (cid, true)
  | .victims _ => n.Quiet ∧ n.phase = .idle ∧
      (n.calm = true ∨ n.seen = true ∨ setting.metaStore = false)
  | .decayVictims _ => n.Quiet ∧ n.phase = .idle ∧ (n.seen = true ∨ setting.metaStore = false)
  | .isPinned _ => n.phase = .idle
  | .protect root cids => n.main = true ∧ n.seen = true ∧ n.phase = .idle ∧ n.Quiet ∧
      Lists setting A root cids
  | .forget _ => n.main = true ∧ n.seen = true ∧ n.phase = .idle ∧ n.Quiet ∧ n.spawned = false
  | .snapshot => ∃ root, n.phase = .changed root
  | .install registry => ∃ pins, n.lock = .fetched pins ∧
      match pins with
      | some bytes => ∃ r, setting.registries.fromJson bytes = .ok r ∧ registry = some r
      | none => registry = none
  | .republish => ∃ root, n.phase = .forgotten root
  | .unlockIo => n.lock ≠ .free
  | _ => True

def contractIssue (A : Cid → Bytes → Prop) (n : Note) : Call → Prop
  | .storeBlock cid data => (n.write = .tracked cid ∨ n.write = .idle) ∧ A cid data
  | .deleteBlock cid => n.deleting = none ∧ ∃ rest, n.condemned = cid :: rest
  | .metaGet => n.lock = .unloaded
  | .metaSet data => (∃ root number, n.phase = .saving root number data) ∨
      ∃ root number, n.phase = .forgetting root number data
  | .lockIo => n.lock = .free
  | _ => True

/-- What a job's own result says about its note. -/
def contractResult : {κ : Kind} → Job κ → Except MistError κ.Out → Note → Prop
  | _, .writeChunk cid chunk, .ok out, n => out = (cid, chunk.length) ∧ n.write = .stored cid
  | _, .fetchChunk _ _, .ok _, n => n.write = .idle
  | _, .pin root, .ok _, n | _, .addPinned _ _, .ok root, n => n.phase = .settled root
  | _, .unpin root, .ok _, n => n.phase = .relaxed root
  | _, _, _, _ => True

structure Note.Closed (n : Note) : Prop where
  lock : n.lock = .free
  phase : n.phase.Resting
  deleting : ∀ cid, n.deleting ≠ some (cid, true)

def contract (setting : Setting) (A : Cid → Bytes → Prop) : Contract engineSig World Note where
  good w := ∀ cid data, w.store.get cid = some data → A cid data
  fit := fun job => match job with
    | .writeChunk cid chunk => computeCid setting.sha256 chunk MULTICODEC_RAW = cid
    | _ => True
  op := contractOp setting A
  issue := contractIssue A
  spawn n := n.phase = .idle
  wait n := n.write = .idle
  kid n := n.main = false
  post := fun job r n => contractResult job r n ∧ n.Closed

end Mistlib.Storage
