import Mathlib

/-!
# `db/write_thread.cc`: the queue of writers

Writers join a lock-free stack, `newest_writer_`, each linked to the one
below it by `link_older`; the oldest is the group leader.  The leader lays
`link_newer` links up the stack (`CreateMissingNewerLinks`), walks from itself
to the newest writer it saw, takes the writers that can share its batch into
its group, and unlinks the others into a side list that it splices back above
its group.  When it is done (`ExitAsBatchGroupLeader`) it hands leadership to
the writer above its group and completes its followers.

Writers are named by their addresses; `none` is `nullptr`.  The queue keeps
every writer by address and `newest_writer_`.  The stack's atomic operations
are sequential steps here: a push that another writer makes while the leader
works is a `LinkOne` between two steps of the leader, and a
`compare_exchange_weak` is given whether it fails spuriously.  A step that
reads a field through a null pointer gives `none`.  The write stall
(`BeginWriteStall`, `EndWriteStall`), the pipelined write path, the statuses
and the memtable states are left out.
-/

namespace HapDB

namespace WriteThread

/-- `WriteThread::State`, the states a writer of the non-pipelined path takes. -/
inductive State where
  | init
  | groupLeader
  | completed
  deriving DecidableEq, Repr

/-- `WriteThread::Writer`: what the queue reads of a writer (its batch's size,
and whether it has one; the write options; whether its callback allows
batching) and what it writes (its state, its group, its two links). -/
structure Writer where
  hasBatch : Bool := true
  batchSize : ℕ := 0
  sync : Bool := false
  noSlowdown : Bool := false
  disableWal : Bool := false
  allowBatching : Bool := true
  state : State := .init
  writeGroup : Option ℕ := none
  linkOlder : Option ℕ := none
  linkNewer : Option ℕ := none
  deriving DecidableEq, Repr

/-- `WriteThread::WriteGroup`: its leader, its last writer and its size. -/
structure WriteGroup where
  leader : ℕ
  lastWriter : ℕ
  size : ℕ
  deriving DecidableEq, Repr

end WriteThread

open WriteThread in
/-- The queue: every writer by address, and `newest_writer_`. -/
structure WriteThread where
  writers : ℕ → Writer
  newestWriter : Option ℕ

namespace WriteThread

/-- A change of the writer at `a`. -/
def modify (wt : WriteThread) (a : ℕ) (f : Writer → Writer) : WriteThread :=
  { wt with writers := Function.update wt.writers a (f (wt.writers a)) }

@[simp] theorem writers_modify_self (wt : WriteThread) (a : ℕ) (f : Writer → Writer) :
    (wt.modify a f).writers a = f (wt.writers a) := by
  simp [modify]

@[simp] theorem writers_modify_of_ne (wt : WriteThread) {a x : ℕ} (f : Writer → Writer)
    (h : x ≠ a) : (wt.modify a f).writers x = wt.writers x := by
  simp [modify, h]

@[simp] theorem newestWriter_modify (wt : WriteThread) (a : ℕ) (f : Writer → Writer) :
    (wt.modify a f).newestWriter = wt.newestWriter := rfl

/-- `SetState(w, new_state)`. -/
def SetState (wt : WriteThread) (w : ℕ) (s : State) : WriteThread :=
  wt.modify w fun x => { x with state := s }

/-- `LinkOne(w, &newest_writer_)` with no write stall in effect: `w` is pushed
onto the stack (a spurious failure of the `compare_exchange_weak` is retried
with the same value); whether the stack was empty. -/
def LinkOne (wt : WriteThread) (w : ℕ) : Bool × WriteThread :=
  let writers := wt.newestWriter
  let wt := wt.modify w fun x => { x with linkOlder := writers }
  (writers.isNone, { wt with newestWriter := some w })

/-- `JoinBatchGroup(w)`: the writer that finds the stack empty leads. -/
def JoinBatchGroup (wt : WriteThread) (w : ℕ) : WriteThread :=
  let (linkedAsLeader, wt) := LinkOne wt w
  if linkedAsLeader then wt.SetState w .groupLeader else wt

/-- `CreateMissingNewerLinks(head)`: from `head` down, `link_newer` of the
writer below, until a writer below already has one. -/
def CreateMissingNewerLinks (wt : WriteThread) : ℕ → ℕ → WriteThread
  | 0, _ => wt
  | fuel + 1, head =>
      match (wt.writers head).linkOlder with
      | none => wt
      | some next =>
          if (wt.writers next).linkNewer.isSome then wt
          else CreateMissingNewerLinks (wt.modify next fun x => { x with linkNewer := some head })
            fuel next

/-- Whether `w` stays out of the leader's batch: a sync write under a
non-sync leader, a different `no_slowdown` or `disable_wal`, no batch, a
callback that forbids batching, or a batch that would grow too large. -/
def excluded (leader w : Writer) (size maxSize : ℕ) : Bool :=
  (w.sync && !leader.sync) || w.noSlowdown != leader.noSlowdown ||
    w.disableWal != leader.disableWal || !w.hasBatch || !w.allowBatching ||
    decide (size + w.batchSize > maxSize)

/-- What the leader's walk up the stack carries: the writer it is at, the end
of its group, the side list's first and last writers, the batch size, the group
and the queue. -/
structure GroupWalk where
  w : ℕ
  we : ℕ
  rb : Option ℕ
  re : Option ℕ
  size : ℕ
  group : WriteGroup
  wt : WriteThread

/-- One round of the walk in `EnterAsBatchGroupLeader`: the next writer up is
either unlinked and put at the end of the side list, or taken into the group. -/
def walkStep (leader : Writer) (groupId maxSize : ℕ) (g : GroupWalk) : Option GroupWalk := do
  let w ← (g.wt.writers g.w).linkNewer
  let x := g.wt.writers w
  if excluded leader x g.size maxSize then
    -- remove from the list
    let older ← x.linkOlder
    let wt := g.wt.modify older fun o => { o with linkNewer := x.linkNewer }
    let wt := match x.linkNewer with
      | some newer => wt.modify newer fun n => { n with linkOlder := x.linkOlder }
      | none => wt
    -- insert into the side list
    match g.re with
    | none => some { g with w := w, rb := some w, re := some w
                            wt := wt.modify w fun x => { x with linkOlder := none } }
    | some re =>
        let wt := wt.modify w fun x => { x with linkOlder := some re }
        some { g with w := w, re := some w, wt := wt.modify re fun r => { r with linkNewer := some w } }
  else
    some { g with w := w, we := w, size := g.size + x.batchSize
                  group := { g.group with lastWriter := w, size := g.group.size + 1 }
                  wt := g.wt.modify w fun x => { x with writeGroup := some groupId } }

/-- The walk from the leader up to `newest`, on fuel. -/
def walkGroup (leader : Writer) (groupId maxSize newest : ℕ) : ℕ → GroupWalk → Option GroupWalk
  | 0, _ => none
  | fuel + 1, g =>
      if g.w = newest then some g
      else (walkStep leader groupId maxSize g).bind (walkGroup leader groupId maxSize newest fuel)

/-- The fallback of the splice: from `w` down the stack to the writer whose
`link_older` is `newest`. -/
def findAbove (wt : WriteThread) (newest : ℕ) : ℕ → ℕ → Option ℕ
  | 0, _ => none
  | fuel + 1, w =>
      if (wt.writers w).linkOlder = some newest then some w
      else (wt.writers w).linkOlder.bind (findAbove wt newest fuel)

/-- The side list from `rb` up to `re`, appended after the group's end `we`. -/
def appendSideList (wt : WriteThread) (we rb re : ℕ) : WriteThread :=
  let wt := wt.modify rb fun x => { x with linkOlder := some we }
  let wt := wt.modify re fun x => { x with linkNewer := none }
  wt.modify we fun x => { x with linkNewer := some rb }

/-- `EnterAsBatchGroupLeader(leader, write_group)`.  `joined` are the writers
that push themselves onto the stack while the leader works, and `spurious`
whether the `compare_exchange_weak` of the splice fails spuriously; `fuel`
bounds the rounds of each loop, and any bound above the number of writers
gives the result of the unbounded loops.  The batch size, the group and the
queue; `none` when the leader reads through a null pointer (or the fuel runs
out). -/
def EnterAsBatchGroupLeader (wt : WriteThread) (leader groupId : ℕ) (joined : List ℕ)
    (spurious : Bool) (fuel : ℕ) : Option (ℕ × WriteGroup × WriteThread) := do
  let lw := wt.writers leader
  let size := lw.batchSize
  let maxSize := if size ≤ 128 * 2 ^ 10 then size + 128 * 2 ^ 10 else 2 ^ 20
  let wt := wt.modify leader fun x => { x with writeGroup := some groupId }
  let newest ← wt.newestWriter
  let wt := CreateMissingNewerLinks wt fuel newest
  let g ← walkGroup lw groupId maxSize newest fuel
    ⟨leader, leader, none, none, size, ⟨leader, leader, 1⟩, wt⟩
  -- the pushes of the writers that joined meanwhile
  let wt := joined.foldl (fun wt j => (LinkOne wt j).2) g.wt
  match g.rb, g.re with
  | some rb, some re =>
      let wt := appendSideList wt g.we rb re
      if wt.newestWriter = some g.w && !spurious then
        some (g.size, g.group, { wt with newestWriter := some re })
      else
        -- the exchange failed: `w` is now the head it found
        let head ← wt.newestWriter
        let w ← findAbove wt newest fuel head
        some (g.size, g.group, wt.modify w fun x => { x with linkOlder := some re })
  | _, _ => some (g.size, g.group, wt)

/-- The loop at the end of `ExitAsBatchGroupLeader`: from the last writer
down to the leader, each follower completed. -/
def completeFollowers (wt : WriteThread) (leader : ℕ) : ℕ → ℕ → Option WriteThread
  | 0, _ => some wt
  | fuel + 1, last =>
      if last = leader then some wt
      else do
        let next ← (wt.writers last).linkOlder
        completeFollowers (wt.SetState last .completed) leader fuel next

/-- `ExitAsBatchGroupLeader(write_group, status)` without pipelined writes: the
stack is emptied if the group's last writer is its top, and otherwise the
writer above the group is made the next leader; then the followers are
completed; `fuel` bounds the rounds of each loop. -/
def ExitAsBatchGroupLeader (wt : WriteThread) (group : WriteGroup) (fuel : ℕ) :
    Option WriteThread := do
  let wt ← match wt.newestWriter with
    | some head =>
        if head = group.lastWriter then some { wt with newestWriter := none }
        else do
          let wt := CreateMissingNewerLinks wt fuel head
          let next ← (wt.writers group.lastWriter).linkNewer
          let wt := wt.modify next fun x => { x with linkOlder := none }
          some (wt.SetState next .groupLeader)
    | none => none
  completeFollowers wt group.leader fuel group.lastWriter

end WriteThread

end HapDB
