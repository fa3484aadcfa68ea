/-
Calls on one queue come to their ends, and what was posted comes back.

A posting and a polling thread never wait for each other or for the device: the turns of
a call are bounded by its own arguments, whatever happens in between.  And no call leaves
the queue in a state that it cannot be emptied from: as long as the device has room for
one entry, some way of going on completes the last request and empties both rings.
-/

import Libcdma.Foundation.Progress
import Libcdma.QueueInterleaving

namespace Libcdma

open WrapCounter ByteImage BlockRing LapRing Transition QueueWorld

/-- The turns a posting call may still take: eight for each request it has not begun. -/
def PostThread.left (thread : PostThread) : Nat :=
  match thread.stage with
  | .build => 8 * thread.rest.length + 3
  | .room _ _ => 8 * thread.rest.length + 10
  | .copy _ _ => 8 * thread.rest.length + 9
  | .mark wr tmp i => 8 * thread.rest.length + 4 + ((wqebbCnt wr tmp.ctl).toNat - i)
  | .choose _ => 2
  | .announce _ _ => 1

/-- The turns a polling call may still take: four for each element of the array. -/
def PollThread.left (thread : PollThread) : Nat :=
  let free := thread.call.crCnt.toNat - thread.call.npolled.toNat
  match thread.stage with
  | .look => 4 * free + 2
  | .locate _ => 4 * free + 1
  | .fill _ _ => 4 * free
  | .judge _ _ => 4 * free - 1
  | .leave _ => 1

/-- An entry in work has an element of the array for it. -/
def PollThread.Within (thread : PollThread) : Prop :=
  match thread.stage with
  | .look | .leave _ => True
  | .locate _ | .fill _ _ | .judge _ _ => thread.call.npolled < thread.call.crCnt

theorem PostThread.left_pos (thread : PostThread) : 0 < thread.left := by
  unfold left
  split <;> omega

theorem PollThread.left_pos {thread : PollThread} (within : thread.Within) : 0 < thread.left := by
  obtain ⟨call, stage⟩ := thread
  have free : call.npolled < call.crCnt → call.npolled.toNat < call.crCnt.toNat :=
    UInt32.lt_iff_toNat_lt.mp
  cases stage with
  | look => exact Nat.succ_pos _
  | locate address => exact Nat.succ_pos _
  | fill address queue =>
      have room := free within
      simp only [left]
      omega
  | judge address queue =>
      have room := free within
      simp only [left]
      omega
  | leave ret => exact Nat.one_pos

theorem PostThread.left_lt {ctx : CdmaUContext} {memory bytes : Bytes} {sq after : CdmaUJettyQueue}
    {thread later : PostThread} (turned : thread.turn ctx memory sq = .again bytes after later) :
    later.left < thread.left := by
  obtain ⟨rest, wrCnt, dwqeAddr, dwqeEnable, stage⟩ := thread
  cases stage with
  | build =>
      cases rest with
      | nil =>
          cases turned
          exact Nat.lt_succ_self 2
      | cons wr rest =>
          simp only [turn] at turned
          split at turned
          · cases turned
            simp only [left, fail]
            omega
          · split at turned
            · cases turned
              simp only [left, fail]
              omega
            · split at turned
              · cases turned
                simp only [left, fail]
                omega
              · cases turned
                simp only [left, List.length_cons]
                omega
  | room wr tmp =>
      simp only [turn] at turned
      split at turned
      · cases turned
        simp only [left, fail]
        omega
      · cases turned
        simp only [left]
        omega
  | copy wr tmp =>
      have most := (wqebbCnt_bounds wr tmp.ctl).2
      cases turned
      simp only [left]
      omega
  | mark wr tmp i =>
      simp only [turn] at turned
      split at turned
      · cases turned
        simp only [left]
        omega
      · cases turned
        simp only [left]
        omega
  | choose error =>
      simp only [turn] at turned
      split at turned
      · cases turned
      · cases turned
        exact Nat.lt_succ_self 1
  | announce error direct =>
      simp only [turn] at turned
      split at turned <;> cases turned

theorem PollThread.left_lt {jfc after : CdmaUJfc} {memory bytes : Memory}
    {thread later : PollThread} (within : thread.Within)
    (turned : thread.turn jfc memory = .again after bytes later) :
    later.Within ∧ later.left < thread.left := by
  obtain ⟨call, stage⟩ := thread
  have free : call.npolled < call.crCnt → call.npolled.toNat < call.crCnt.toNat :=
    UInt32.lt_iff_toNat_lt.mp
  cases stage with
  | look =>
      simp only [turn] at turned
      split at turned
      · rename_i more
        have room := free more
        split at turned
        · cases turned
          refine ⟨trivial, ?_⟩
          simp only [left, goto]
          omega
        · cases turned
          refine ⟨more, ?_⟩
          simp only [left, goto]
          omega
      · cases turned
        refine ⟨trivial, ?_⟩
        simp only [left, goto]
        omega
  | locate address =>
      have room := free within
      simp only [turn] at turned
      split at turned
      · cases turned
        refine ⟨trivial, ?_⟩
        simp only [left, goto]
        omega
      · cases turned
        refine ⟨within, ?_⟩
        simp only [left, goto]
        omega
  | fill address queue =>
      have room := free within
      cases turned
      refine ⟨within, ?_⟩
      simp only [left, goto, setCr]
      omega
  | judge address queue =>
      have room := free within
      simp only [turn] at turned
      split at turned
      · cases turned
        refine ⟨trivial, ?_⟩
        simp only [left, goto]
        omega
      · split at turned
        · cases turned
          refine ⟨trivial, ?_⟩
          simp only [left, goto]
          omega
        · cases turned
          refine ⟨trivial, ?_⟩
          have next : (call.npolled + 1).toNat = call.npolled.toNat + 1 :=
            toNat_succ_of_lt within
          simp only [left, setCr, next]
          omega
  | leave ret => cases turned

theorem Arriving.ready {cqShift stride consumed published : Nat} {jfc : CdmaUJfc}
    {memory : Memory} {written : List (CdmaUJfcCqe × Option Nat)}
    (arriving : Arriving cqShift stride consumed published jfc memory written)
    (more : consumed < written.length) :
    cdmaUGetNextCqe jfc memory jfc.cq.ci =
      some (jfc.cq.slotAddress (consumed % 2 ^ cqShift)) := by
  have behind := arriving.published_le
  have room := arriving.room
  have valid := (arriving.stamped.valid_iff arriving.consumed_le (by omega)
    (Nat.two_pow_pos cqShift)).mpr more
  have next := cdmaUGetNextCqe_counter arriving.geometry memory arriving.ci_eq consumed
  rw [if_pos valid, ← arriving.ci_eq] at next
  exact next

namespace SharedAction

def isPoster : SharedAction → Bool
  | .poster => true
  | .post _ | .produce _ _ | .poll _ _ | .poller => false

def isPoller : SharedAction → Bool
  | .poller => true
  | .post _ | .poster | .produce _ _ | .poll _ _ => false

def Plain : SharedAction → Prop
  | .post _ => False
  | .poster | .produce _ _ | .poll _ _ | .poller => True

def posterTurns : SharedAction → Nat
  | .post wrs => 8 * wrs.length + 3
  | .poster | .produce _ _ | .poll _ _ | .poller => 0

def pollerTurns : SharedAction → Nat
  | .poll crCnt _ => 4 * crCnt.toNat + 2
  | .post _ | .poster | .produce _ _ | .poller => 0

end SharedAction

namespace SharedWorld

variable {w next : SharedWorld}

def posterLeft (w : SharedWorld) : Nat := w.poster.elim 0 PostThread.left

def pollerLeft (w : SharedWorld) : Nat := w.poller.elim 0 PollThread.left

def Within (w : SharedWorld) : Prop := ∀ thread ∈ w.poller, thread.Within

theorem posterTurn_left (w : SharedWorld) {thread : PostThread} (active : w.poster = some thread) :
    (w.posterTurn thread).posterLeft < w.posterLeft := by
  unfold posterTurn posterLeft
  rw [active]
  cases turned : thread.turn w.ctx w.memory.byte w.sq with
  | again bytes sq later => exact PostThread.left_lt turned
  | exit result => exact thread.left_pos

theorem pollerTurn_left {thread : PollThread} (within : w.Within) (active : w.poller = some thread) :
    (w.pollerTurn thread).Within ∧ (w.pollerTurn thread).pollerLeft < w.pollerLeft := by
  have own := within thread active
  unfold pollerTurn pollerLeft Within
  rw [active]
  cases turned : thread.turn w.jfc w.memory with
  | again jfc memory later =>
      obtain ⟨still, less⟩ := PollThread.left_lt own turned
      refine ⟨fun other same => ?_, less⟩
      cases same
      exact still
  | exit jfc memory call value =>
      refine ⟨fun other same => ?_, PollThread.left_pos own⟩
      cases same

theorem posterTurn_poller (w : SharedWorld) (thread : PostThread) :
    (w.posterTurn thread).poller = w.poller := by
  unfold posterTurn
  split <;> rfl

theorem pollerTurn_poster (w : SharedWorld) (thread : PollThread) :
    (w.pollerTurn thread).poster = w.poster := by
  unfold pollerTurn
  split <;> rfl

theorem step_threads {action : SharedAction} (stepped : w.step action = some next) :
    (∃ wrs, action = .post wrs ∧ w.poster = none ∧
      next = { w with poster := some (.start wrs) }) ∨
    (∃ thread, action = .poster ∧ w.poster = some thread ∧ next = w.posterTurn thread) ∨
    (∃ cqe request, action = .produce cqe request ∧ w.Free ∧ next = w.produce cqe request) ∨
    (∃ crCnt cr, action = .poll crCnt cr ∧ w.poller = none ∧
      next = { w with poller := some (.start crCnt cr) }) ∨
    ∃ thread, action = .poller ∧ w.poller = some thread ∧ next = w.pollerTurn thread := by
  cases action with
  | post wrs =>
      simp only [step] at stepped
      split at stepped
      · rename_i idle
        cases stepped
        exact .inl ⟨wrs, rfl, idle, rfl⟩
      · cases stepped
  | poster =>
      obtain ⟨thread, active, rfl⟩ := Option.map_eq_some_iff.mp stepped
      exact .inr (.inl ⟨thread, rfl, active, rfl⟩)
  | produce cqe request =>
      obtain ⟨⟨_, _, free⟩, ⟨⟩⟩ := Option.ite_none_right_eq_some.mp stepped
      exact .inr (.inr (.inl ⟨cqe, request, rfl, free, rfl⟩))
  | poll crCnt cr =>
      simp only [step] at stepped
      split at stepped
      · rename_i idle
        cases stepped
        exact .inr (.inr (.inr (.inl ⟨crCnt, cr, rfl, idle, rfl⟩)))
      · cases stepped
  | poller =>
      obtain ⟨thread, active, rfl⟩ := Option.map_eq_some_iff.mp stepped
      exact .inr (.inr (.inr (.inr ⟨thread, rfl, active, rfl⟩)))

theorem Within.step (within : w.Within) {action : SharedAction}
    (stepped : w.step action = some next) : next.Within := by
  rcases step_threads stepped with posts | turns | produces | polls | turns
  · obtain ⟨_, _, _, rfl⟩ := posts
    exact within
  · obtain ⟨thread, _, _, rfl⟩ := turns
    unfold Within
    rw [posterTurn_poller]
    exact within
  · obtain ⟨_, _, _, _, rfl⟩ := produces
    exact within
  · obtain ⟨crCnt, cr, _, _, rfl⟩ := polls
    intro thread same
    cases same
    trivial
  · obtain ⟨thread, _, active, rfl⟩ := turns
    exact (pollerTurn_left within active).1

theorem poster_pays {action : SharedAction} (stepped : w.step action = some next) :
    next.posterLeft + action.isPoster.toNat ≤ w.posterLeft + action.posterTurns := by
  rcases step_threads stepped with posts | turns | produces | polls | turns
  · obtain ⟨wrs, rfl, idle, rfl⟩ := posts
    exact Nat.le_add_left _ _
  · obtain ⟨thread, rfl, active, rfl⟩ := turns
    exact w.posterTurn_left active
  · obtain ⟨_, _, rfl, _, rfl⟩ := produces
    exact Nat.le_refl _
  · obtain ⟨_, _, rfl, _, rfl⟩ := polls
    exact Nat.le_refl _
  · obtain ⟨thread, rfl, _, rfl⟩ := turns
    unfold posterLeft
    rw [pollerTurn_poster]
    exact Nat.le_refl _

theorem poller_pays {action : SharedAction} (within : w.Within)
    (stepped : w.step action = some next) :
    next.pollerLeft + action.isPoller.toNat ≤ w.pollerLeft + action.pollerTurns := by
  rcases step_threads stepped with posts | turns | produces | polls | turns
  · obtain ⟨_, rfl, _, rfl⟩ := posts
    exact Nat.le_refl _
  · obtain ⟨thread, rfl, _, rfl⟩ := turns
    unfold pollerLeft
    rw [posterTurn_poller]
    exact Nat.le_refl _
  · obtain ⟨_, _, rfl, _, rfl⟩ := produces
    exact Nat.le_refl _
  · obtain ⟨crCnt, cr, rfl, idle, rfl⟩ := polls
    have whole : PollThread.left (.start crCnt cr) = 4 * crCnt.toNat + 2 := by
      simp [PollThread.left, PollThread.start, PollCall.start]
    change PollThread.left (.start crCnt cr) ≤ w.pollerLeft + (4 * crCnt.toNat + 2)
    omega
  · obtain ⟨thread, rfl, active, rfl⟩ := turns
    exact (pollerTurn_left within active).2

/-! ### Calls that go on alone -/

theorem posting_ends {inv : SharedWorld → Prop}
    (keeps : ∀ state thread, inv state → state.poster = some thread →
      inv (state.posterTurn thread))
    (start : inv w) :
    ∃ turns last, (∀ action ∈ turns, action = .poster) ∧
      run SharedWorld.step w turns = some last ∧ inv last ∧ last.poster = none := by
  have nearer (state : SharedWorld) (kept : inv state) (busy : ¬state.poster = none) :
      ∃ actions next, (∀ action ∈ actions, action = .poster) ∧
        run SharedWorld.step state actions = some next ∧ inv next ∧
        next.posterLeft < state.posterLeft := by
    obtain ⟨thread, active⟩ := Option.ne_none_iff_exists'.mp busy
    have stepped : state.step .poster = some (state.posterTurn thread) :=
      Option.map_eq_some_iff.mpr ⟨thread, active, rfl⟩
    exact ⟨[.poster], _, fun action listed => List.mem_singleton.mp listed, run_single stepped,
      keeps state thread kept active, state.posterTurn_left active⟩
  exact exists_run_reaching nearer start

theorem polling_ends {inv : SharedWorld → Prop}
    (keeps : ∀ state thread, inv state → state.poller = some thread →
      inv (state.pollerTurn thread))
    (within : w.Within) (start : inv w) :
    ∃ turns last, (∀ action ∈ turns, action = .poller) ∧
      run SharedWorld.step w turns = some last ∧ (last.Within ∧ inv last) ∧
      last.poller = none := by
  have nearer (state : SharedWorld) (kept : state.Within ∧ inv state)
      (busy : ¬state.poller = none) :
      ∃ actions next, (∀ action ∈ actions, action = .poller) ∧
        run SharedWorld.step state actions = some next ∧ (next.Within ∧ inv next) ∧
        next.pollerLeft < state.pollerLeft := by
    obtain ⟨thread, active⟩ := Option.ne_none_iff_exists'.mp busy
    obtain ⟨still, less⟩ := pollerTurn_left kept.1 active
    have stepped : state.step .poller = some (state.pollerTurn thread) :=
      Option.map_eq_some_iff.mpr ⟨thread, active, rfl⟩
    exact ⟨[.poller], _, fun action listed => List.mem_singleton.mp listed, run_single stepped,
      ⟨still, keeps state thread kept.2 active⟩, less⟩
  exact exists_run_reaching nearer ⟨within, start⟩

structure Follows (base w : SharedWorld) : Prop where
  queue_eq : w.queue = base.queue
  poster_eq : w.poster = base.poster
  pi_eq : w.pi = base.pi
  posted_eq : w.posted = base.posted
  visible_eq : w.visible = base.visible
  written_eq : w.written = base.written
  announced_eq : w.announced = base.announced

theorem Follows.trans {base middle w : SharedWorld} (first : Follows base middle)
    (second : Follows middle w) : Follows base w :=
  ⟨second.queue_eq.trans first.queue_eq, second.poster_eq.trans first.poster_eq,
    second.pi_eq.trans first.pi_eq, second.posted_eq.trans first.posted_eq,
    second.visible_eq.trans first.visible_eq, second.written_eq.trans first.written_eq,
    second.announced_eq.trans first.announced_eq⟩

theorem pollerTurn_follows (w : SharedWorld) (thread : PollThread) :
    Follows w (w.pollerTurn thread) ∧ w.consumed ≤ (w.pollerTurn thread).consumed := by
  unfold pollerTurn
  split
  · refine ⟨⟨rfl, rfl, rfl, rfl, rfl, rfl, rfl⟩, ?_⟩
    dsimp only
    split
    · exact Nat.le_succ _
    · exact Nat.le_refl _
  · exact ⟨⟨rfl, rfl, rfl, rfl, rfl, rfl, rfl⟩, Nat.le_refl _⟩

/-- The queue is sound, and the device has room for an entry. -/
def Roomy (w : SharedWorld) (shift cqShift stride start : Nat) : Prop :=
  ∃ ci polled published seen,
    w.Interleaved shift cqShift stride start ci polled published seen ∧
      w.written.length < published + 2 ^ cqShift

section Reading

variable {shift cqShift stride start : Nat}

theorem Roomy.pollerTurn (roomy : w.Roomy shift cqShift stride start) (small : shift ≤ 16)
    {thread : PollThread} (active : w.poller = some thread) :
    (w.pollerTurn thread).Roomy shift cqShift stride start := by
  obtain ⟨_, _, published, _, inv, room⟩ := roomy
  obtain ⟨ci, polled, reached, seen, onwards, kept⟩ := inv.pollerTurn small active
  refine ⟨ci, polled, reached, seen, kept, ?_⟩
  rw [(w.pollerTurn_follows thread).1.written_eq]
  omega

theorem Roomy.poll (roomy : w.Roomy shift cqShift stride start) (idle : w.poller = none)
    (crCnt : UInt32) (cr : UInt32 → DmaCr) :
    Roomy { w with poller := some (.start crCnt cr) } shift cqShift stride start := by
  obtain ⟨ci, polled, published, seen, inv, room⟩ := roomy
  exact ⟨ci, polled, published, seen, inv.poll idle crCnt cr, room⟩

theorem Roomy.polling_ends (roomy : w.Roomy shift cqShift stride start) (small : shift ≤ 16)
    (within : w.Within) :
    ∃ turns last, (∀ action ∈ turns, action.Plain) ∧ run SharedWorld.step w turns = some last ∧
      last.Within ∧ last.Roomy shift cqShift stride start ∧ Follows w last ∧
      w.consumed ≤ last.consumed ∧ last.poller = none := by
  have keeps (state : SharedWorld) (thread : PollThread)
      (inv : state.Roomy shift cqShift stride start ∧ Follows w state ∧
        w.consumed ≤ state.consumed)
      (active : state.poller = some thread) :
      (state.pollerTurn thread).Roomy shift cqShift stride start ∧
        Follows w (state.pollerTurn thread) ∧ w.consumed ≤ (state.pollerTurn thread).consumed := by
    obtain ⟨kept, follows, read⟩ := inv
    obtain ⟨further, more⟩ := state.pollerTurn_follows thread
    exact ⟨kept.pollerTurn small active, follows.trans further, Nat.le_trans read more⟩
  obtain ⟨turns, last, polls, ran, ⟨still, kept, follows, read⟩, idle⟩ :=
    SharedWorld.polling_ends keeps within
      ⟨roomy, ⟨rfl, rfl, rfl, rfl, rfl, rfl, rfl⟩, Nat.le_refl _⟩
  refine ⟨turns, last, ?_, ran, still, kept, follows, read, idle⟩
  intro action listed
  rw [polls action listed]
  trivial

/-- A call for one record takes an entry if there is one. -/
theorem Roomy.reads_one (roomy : w.Roomy shift cqShift stride start) (small : shift ≤ 16)
    (within : w.Within) (idle : w.poller = none) (more : w.consumed < w.written.length) :
    ∃ actions last, (∀ action ∈ actions, action.Plain) ∧
      run SharedWorld.step w actions = some last ∧ last.Within ∧
      last.Roomy shift cqShift stride start ∧ Follows w last ∧ w.consumed < last.consumed ∧
      last.poller = none := by
  let called : SharedWorld := { w with poller := some (.start 1 fun _ => .blank) }
  have calls : w.step (.poll 1 fun _ => .blank) = some called := by
    simp only [step, idle]
    rfl
  have active : called.poller = some (.start 1 fun _ => .blank) := rfl
  have looks : called.step .poller = some (called.pollerTurn (.start 1 fun _ => .blank)) := rfl
  have calledRoomy : called.Roomy shift cqShift stride start := roomy.poll idle 1 _
  have lookedWithin := (within.step calls).step looks
  have lookedRoomy := calledRoomy.pollerTurn small active
  have takes : (called.pollerTurn (.start 1 fun _ => .blank)).consumed = w.consumed + 1 := by
    obtain ⟨_, _, _, _, inv, _⟩ := roomy
    have next := inv.polling.arriving.ready more
    have free : (0 : UInt32) < 1 := by decide
    simp only [SharedWorld.pollerTurn, takes, PollThread.start, PollThread.turn, PollCall.upcoming,
      PollCall.start, called, next, free, if_true, Option.map_some, Option.isSome_some]
  obtain ⟨turns, last, plain, ran, still, kept, follows, read, ended⟩ :=
    lookedRoomy.polling_ends small lookedWithin
  obtain ⟨looked, _⟩ := called.pollerTurn_follows (.start 1 fun _ => .blank)
  have begun : Follows w called := ⟨rfl, rfl, rfl, rfl, rfl, rfl, rfl⟩
  refine ⟨[.poll 1 fun _ => .blank, .poller] ++ turns, last, ?_, ?_, still, kept,
    (begun.trans looked).trans follows, by omega, ended⟩
  · intro action listed
    rcases List.mem_cons.mp listed with rfl | second
    · trivial
    · rcases List.mem_cons.mp second with rfl | later
      · trivial
      · exact plain action later
  · have second := (run_cons_eq_some SharedWorld.step).mpr ⟨_, looks, ran⟩
    exact (run_cons_eq_some SharedWorld.step).mpr ⟨called, calls, second⟩

theorem Roomy.reads_all (roomy : w.Roomy shift cqShift stride start) (small : shift ≤ 16)
    (within : w.Within) :
    ∃ actions last, (∀ action ∈ actions, action.Plain) ∧
      run SharedWorld.step w actions = some last ∧ last.Within ∧
      last.Roomy shift cqShift stride start ∧ Follows w last ∧ last.poller = none ∧
      last.consumed = last.written.length := by
  obtain ⟨turns, middle, polls, toMiddle, middleWithin, middleRoomy, follows, _, idle⟩ :=
    roomy.polling_ends small within
  have nearer (state : SharedWorld)
      (inv : state.Within ∧ state.Roomy shift cqShift stride start ∧ Follows middle state ∧
        state.poller = none)
      (unread : ¬state.consumed = state.written.length) :
      ∃ actions next, (∀ action ∈ actions, SharedAction.Plain action) ∧
        run SharedWorld.step state actions = some next ∧
        (next.Within ∧ next.Roomy shift cqShift stride start ∧ Follows middle next ∧
          next.poller = none) ∧
        next.written.length - next.consumed < state.written.length - state.consumed := by
    obtain ⟨stateWithin, stateRoomy, stateFollows, stateIdle⟩ := inv
    have reach : state.consumed ≤ state.written.length := by
      obtain ⟨_, _, _, _, kept, _⟩ := stateRoomy
      exact kept.polling.arriving.consumed_le
    obtain ⟨actions, next, plain, ran, still, kept, further, read, ended⟩ :=
      stateRoomy.reads_one small stateWithin stateIdle (Nat.lt_of_le_of_ne reach unread)
    refine ⟨actions, next, plain, ran,
      ⟨still, kept, stateFollows.trans further, ended⟩, ?_⟩
    rw [further.written_eq]
    omega
  obtain ⟨actions, last, reads, toLast, ⟨still, kept, further, ended⟩, read⟩ :=
    exists_run_reaching nearer
      ⟨middleWithin, middleRoomy, ⟨rfl, rfl, rfl, rfl, rfl, rfl, rfl⟩, idle⟩
  exact ⟨turns ++ actions, last, List.forall_mem_append.mpr ⟨polls, reads⟩,
    run_append SharedWorld.step toMiddle toLast, still, kept, follows.trans further, ended, read⟩

end Reading

/-! ### The last request completed -/

def closingEntry (queue : UInt64) (request : SqRequest) : CdmaUJfcCqe :=
  { CdmaUJfcCqe.zeroed with
    entryIdx := (counter (request.next - 1)).toUInt16
    userDataL := queue.toUInt32
    userDataH := (queue >>> cdmaAddrShift).toUInt32 }

theorem closingEntry_userData (queue : UInt64) (request : SqRequest) :
    (closingEntry queue request).userData = queue := by
  change ((queue >>> cdmaAddrShift).toUInt32.toUInt64 <<< cdmaAddrShift) |||
    queue.toUInt32.toUInt64 = queue
  have below := queue.toNat_lt
  have shift : cdmaAddrShift.toNat % 64 = 32 := rfl
  have high : (queue >>> cdmaAddrShift).toNat = queue.toNat / 2 ^ 32 := by
    rw [UInt64.toNat_shiftRight, Nat.shiftRight_eq_div_pow, shift]
  have top : queue.toNat / 2 ^ 32 < 2 ^ 32 := by omega
  rw [← UInt64.toNat_inj, UInt64.toNat_or, UInt64.toNat_shiftLeft, UInt32.toNat_toUInt64,
    UInt32.toNat_toUInt64, UInt64.toNat_toUInt32, UInt64.toNat_toUInt32, high, shift,
    Nat.shiftLeft_eq, Nat.mod_eq_of_lt top, Nat.mod_eq_of_lt (by omega), Nat.mul_comm,
    ← Nat.two_pow_add_eq_or_of_lt (by omega)]
  omega

theorem closingEntry_names (queue : UInt64) {posted : List SqRequest} {index : Nat}
    {request : SqRequest} (isPosted : posted[index]? = some request) :
    Names queue posted (closingEntry queue request) (some index) := by
  have some := (wqebbCnt_bounds request.wr request.tmp.ctl).1
  refine ⟨rfl, closingEntry_userData queue request, request, isPosted, request.blocks - 1,
    List.mem_range.mpr (Nat.sub_lt some Nat.one_pos), ?_⟩
  have last : request.next - 1 = request.first + (request.blocks - 1) :=
    Nat.add_sub_assoc some request.first
  rw [← last]
  rfl

theorem step_poller {thread : PollThread} (active : w.poller = some thread) :
    w.step .poller = some (w.pollerTurn thread) :=
  Option.map_eq_some_iff.mpr ⟨thread, active, rfl⟩

def judgedQueue (w : SharedWorld) (cqe : CdmaUJfcCqe) : CdmaUJettyQueue :=
  { w.sq with ci := completionIndex w.sq cqe + 1 }

theorem reads_good (idle : w.poller = none) (queue : w.queue ≠ 0) {address : Nat}
    {cqe : CdmaUJfcCqe} {tag : Option Nat}
    (next : cdmaUGetNextCqe w.jfc w.memory w.jfc.cq.ci = some address)
    (content : w.memory.cqe address = cqe) (tagIs : tagAt w.written w.consumed = tag)
    (own : cqe.userData = w.queue) (plain : cqe.fd = false)
    (good : cdmaGetCrStatus cqe.status cqe.substatus = some .success) :
    ∃ final record, run SharedWorld.step w
        (.poll 1 (fun _ => .blank) :: List.replicate 6 .poller) = some final ∧
      Follows w final ∧ final.poller = none ∧ final.sq = w.judgedQueue cqe ∧
      final.consumed = w.consumed + 1 ∧
      final.memory.word final.jfc.swDb = final.jfc.cq.ci &&& cdmaJfcDbCiIdxM ∧
      final.reported = w.reported ++ [(record, tag)] ∧ record.status = .success := by
  let call : PollCall := .start 1 fun _ => .blank
  let located := w.memory.setQueue w.queue { w.sq with ci := completionIndex w.sq cqe }
  let record := cdmaFillCr (located.queue w.queue) cqe .blank
  let judged := located.setQueue w.queue
    { located.queue w.queue with ci := (located.queue w.queue).ci + 1 }
  have same : located.cqe address = cqe := content
  -- the state after each turn
  let called : SharedWorld := { w with poller := some ⟨call, .look⟩ }
  let taken : SharedWorld :=
    { w with
      jfc := w.jfc.setCi (w.jfc.cq.ci + 1)
      poller := some ⟨call, .locate address⟩
      consumed := w.consumed + 1
      marks := Function.update w.marks 0 tag }
  let found : SharedWorld :=
    { taken with memory := located, poller := some ⟨call, .fill address w.queue⟩ }
  let filled : SharedWorld :=
    { found with
      poller := some
        ⟨{ call with cr := Function.update call.cr 0 record }, .judge address w.queue⟩ }
  let done : PollCall :=
    { call with
      cr := Function.update (Function.update call.cr 0 record) 0 { record with status := .success }
      npolled := 1 }
  let read : SharedWorld := { found with memory := judged, poller := some ⟨done, .look⟩ }
  let stopped : SharedWorld := { read with poller := some ⟨done, .leave .ok⟩ }
  let final : SharedWorld :=
    { stopped with
      memory := judged.setWord w.jfc.swDb (taken.jfc.cq.ci &&& cdmaJfcDbCiIdxM)
      poller := none
      reported := w.reported ++ [({ record with status := .success }, tag)] }
  have calls : w.step (.poll 1 fun _ => .blank) = some called := by
    simp only [step, idle]
    rfl
  have looks : called.step .poller = some taken := by
    have free : (0 : UInt32) < 1 := by decide
    refine (step_poller rfl).trans (congrArg some ?_)
    simp only [SharedWorld.pollerTurn, takes, PollThread.turn, PollCall.upcoming, called, call,
      PollCall.start, next, free, if_true, Option.map_some, Option.isSome_some, tagIs]
    rfl
  have locates : taken.step .poller = some found := by
    refine (step_poller rfl).trans (congrArg some (Interleaved.pollerTurn_again ?_ (by simp)))
    simp only [PollThread.turn, taken, content, cdmaUUpdateJettyIdx, queue, plain, if_false,
      Bool.false_eq_true, own]
    rfl
  have fills : found.step .poller = some filled := by
    refine (step_poller rfl).trans (congrArg some (Interleaved.pollerTurn_again ?_ (by simp)))
    simp only [PollThread.turn, found, same]
    rfl
  have judges : filled.step .poller = some read := by
    have undone := cdmaGetCrStatus_ne_done good
    refine (step_poller rfl).trans (congrArg some (Interleaved.pollerTurn_again ?_ (by simp)))
    simp only [PollThread.turn, filled, found, same, cdmaUUpdateFlushCr, good, plain,
      Bool.false_eq_true, if_false, ne_eq, not_true_eq_false, undone]
    rfl
  have stops : read.step .poller = some stopped := by
    refine (step_poller rfl).trans (congrArg some ?_)
    simp only [SharedWorld.pollerTurn, takes, PollThread.turn, PollCall.upcoming, read, call, done,
      PollCall.start]
    rfl
  have leaves : stopped.step .poller = some final := by
    refine (step_poller rfl).trans (congrArg some ?_)
    simp only [SharedWorld.pollerTurn, PollThread.turn, read, stopped, final, call, done]
    rfl
  refine ⟨final, { record with status := .success }, ?_, ⟨rfl, rfl, rfl, rfl, rfl, rfl, rfl⟩, rfl,
    ?_, rfl, Function.update_self _ _ _, rfl, rfl⟩
  · simp only [List.replicate, run, calls, looks, locates, fills, judges, stops, leaves,
      Option.bind_some]
  · have moved : located.queue w.queue = { w.sq with ci := completionIndex w.sq cqe } :=
      Function.update_self _ _ _
    have after : judged.queue w.queue =
        { located.queue w.queue with ci := (located.queue w.queue).ci + 1 } :=
      Function.update_self _ _ _
    rw [moved] at after
    exact after

section Closing

variable {shift cqShift stride start ci polled published seen : Nat}

theorem judgedQueue_empty
    (inv : w.Interleaved shift cqShift stride start ci polled published seen)
    (small : shift ≤ 16) (idle : w.poller = none) {cqe : CdmaUJfcCqe} {index : Nat}
    {request : SqRequest} (tagIs : tagAt w.written w.consumed = some index)
    (isPosted : w.posted[index]? = some request) (last : request.next = w.pi)
    (named : cqe.entryIdx = (counter (request.next - 1)).toUInt16) :
    (w.judgedQueue cqe).ci = (w.judgedQueue cqe).pi := by
  have half := inv.posting.half
  have room := half.room
  have caughtUp := inv.polling.unread idle
  have fresh := inv.polling.tagged.pending w.consumed index (Nat.le_of_eq caughtUp) tagIs
  obtain ⟨behind, _, _⟩ := half.ahead index request fresh isPosted
  have blocks := (wqebbCnt_bounds request.wr request.tmp.ctl).1
  have next_eq : request.next = request.first + (wqebbCnt request.wr request.tmp.ctl).toNat := rfl
  have block : completionIndex w.sq cqe = counter (request.next - 1) :=
    completionIndex_of_mask half.geometry.mask_counter half.ci_eq small (by omega) (by omega) named
  calc
    completionIndex w.sq cqe + 1 = counter (request.next - 1) + 1 := by rw [block]
    _ = counter (request.next - 1 + 1) := counter_succ _
    _ = counter w.pi := by rw [Nat.sub_add_cancel (by omega), last]
    _ = w.sq.pi := half.pi_eq.symm

end Closing

structure PostsOnto (base w : SharedWorld) : Prop where
  queue_eq : w.queue = base.queue
  poller_eq : w.poller = base.poller
  written_eq : w.written = base.written
  consumed_eq : w.consumed = base.consumed
  announced_eq : w.announced = base.announced
  posted_eq : ∃ more, w.posted = base.posted ++ more

theorem PostsOnto.refl (w : SharedWorld) : PostsOnto w w :=
  ⟨rfl, rfl, rfl, rfl, rfl, [], (List.append_nil _).symm⟩

theorem posterTurn_postsOnto {base : SharedWorld} (posts : PostsOnto base w) (thread : PostThread) :
    PostsOnto base (w.posterTurn thread) := by
  obtain ⟨more, posted⟩ := posts.posted_eq
  unfold posterTurn
  split
  · refine ⟨posts.queue_eq, posts.poller_eq, posts.written_eq, posts.consumed_eq,
      posts.announced_eq, more ++ thread.finishing w.pi, ?_⟩
    rw [← List.append_assoc, ← posted]
  · exact ⟨posts.queue_eq, posts.poller_eq, posts.written_eq, posts.consumed_eq,
      posts.announced_eq, more, posted⟩

theorem Roomy.posterTurn {shift cqShift stride start : Nat}
    (roomy : w.Roomy shift cqShift stride start) {thread : PostThread}
    (active : w.poster = some thread) :
    (w.posterTurn thread).Roomy shift cqShift stride start := by
  obtain ⟨ci, polled, published, seen, inv, room⟩ := roomy
  refine ⟨ci, polled, published, seen, inv.posterTurn active, ?_⟩
  rw [(posterTurn_postsOnto (.refl w) thread).written_eq]
  exact room

theorem Roomy.posting_ends {shift cqShift stride start : Nat}
    (roomy : w.Roomy shift cqShift stride start) :
    ∃ turns last, (∀ action ∈ turns, action.Plain) ∧ run SharedWorld.step w turns = some last ∧
      last.Roomy shift cqShift stride start ∧ PostsOnto w last ∧ last.poster = none := by
  have keeps (state : SharedWorld) (thread : PostThread)
      (inv : state.Roomy shift cqShift stride start ∧ PostsOnto w state)
      (active : state.poster = some thread) :
      (state.posterTurn thread).Roomy shift cqShift stride start ∧
        PostsOnto w (state.posterTurn thread) :=
    ⟨inv.1.posterTurn active, posterTurn_postsOnto inv.2 thread⟩
  obtain ⟨turns, last, posts, ran, ⟨kept, onto⟩, idle⟩ :=
    SharedWorld.posting_ends keeps ⟨roomy, .refl w⟩
  refine ⟨turns, last, ?_, ran, kept, onto, idle⟩
  intro action listed
  rw [posts action listed]
  trivial

theorem queue_eq_of_step {action : SharedAction} (stepped : w.step action = some next) :
    next.queue = w.queue := by
  rcases step_threads stepped with posts | turns | produces | polls | turns
  · obtain ⟨_, _, _, rfl⟩ := posts
    rfl
  · obtain ⟨thread, _, _, rfl⟩ := turns
    exact (posterTurn_postsOnto (.refl w) thread).queue_eq
  · obtain ⟨_, _, _, _, rfl⟩ := produces
    rfl
  · obtain ⟨_, _, _, _, rfl⟩ := polls
    rfl
  · obtain ⟨thread, _, _, rfl⟩ := turns
    exact (w.pollerTurn_follows thread).1.queue_eq

/-- The last request completed and read: what is left of the queue. -/
structure Drained (base w : SharedWorld) : Prop where
  poster_eq : w.poster = none
  poller_eq : w.poller = none
  posted_eq : w.posted = base.posted
  empty : w.sq.ci = w.sq.pi
  read : w.consumed = w.written.length
  published : w.memory.word w.jfc.swDb = w.jfc.cq.ci &&& cdmaJfcDbCiIdxM
  written : w.written.length = base.written.length + 1
  reported : ∃ record, (record, some (w.posted.length - 1)) ∈ w.reported ∧ record.status = .success

/-- Between calls, with everything read, one entry and one call empty the queue. -/
theorem Roomy.drains {shift cqShift stride start : Nat}
    (roomy : w.Roomy shift cqShift stride start) (small : shift ≤ 16) (narrow : cqShift < 22)
    (queue : w.queue ≠ 0) (noPoster : w.poster = none) (noPoller : w.poller = none)
    (read : w.consumed = w.written.length) (pending : w.announced < w.posted.length) :
    ∃ actions last, (∀ action ∈ actions, action.Plain) ∧
      run SharedWorld.step w actions = some last ∧ Drained w last := by
  obtain ⟨ci, polled, published, seen, inv, room⟩ := roomy
  have free : w.Free := (inv.polling.arriving.free_iff narrow).mpr room
  obtain ⟨request, isPosted⟩ : ∃ request, w.posted[w.posted.length - 1]? = some request :=
    ⟨_, List.getElem?_eq_getElem (by omega)⟩
  have lastNext : request.next = w.pi :=
    inv.posting.half.chain.last (List.getLast?_eq_getElem?.trans isPosted)
  have visible : w.posted.take w.visible = w.posted := by
    rw [(inv.posting.resting noPoster).2, List.take_length]
  have names : Names w.queue (w.posted.take w.visible) (closingEntry w.queue request)
      (some (w.posted.length - 1)) := by
    rw [visible]
    exact closingEntry_names w.queue isPosted
  have ahead : ∀ index ∈ some (w.posted.length - 1), w.announced ≤ index := by
    intro index same
    cases same
    omega
  let told := w.produce (closingEntry w.queue request) (some (w.posted.length - 1))
  have produces : w.step (.produce (closingEntry w.queue request) (some (w.posted.length - 1))) =
      some told := if_pos ⟨names, ahead, free⟩
  have toldInv := inv.produce narrow names ahead free
  have longer : told.written.length = w.written.length + 1 := by
    change (w.written ++ [_]).length = _
    rw [List.length_append, List.length_singleton]
  let cqe := deviceEntry w.jfc.cq w.written.length (closingEntry w.queue request)
  have here : told.written[told.consumed]? = some (cqe, some (w.posted.length - 1)) := by
    change (w.written ++ [_])[w.consumed]? = _
    rw [read]
    exact List.getElem?_concat_length
  have tagIs : tagAt told.written told.consumed = some (w.posted.length - 1) := by
    rw [tagAt, here]
    rfl
  have arriving := toldInv.polling.arriving
  have more : told.consumed < told.written.length := by
    have same : told.consumed = w.consumed := rfl
    omega
  have content := arriving.entry arriving.published_le here
  obtain ⟨last, record, ran, follows, idle, sq, consumed, word, reported, status⟩ :=
    reads_good (w := told) noPoller queue (arriving.ready more) content tagIs
      (closingEntry_userData w.queue request) rfl rfl
  have empty : (told.judgedQueue cqe).ci = (told.judgedQueue cqe).pi :=
    judgedQueue_empty toldInv small noPoller tagIs isPosted lastNext rfl
  refine ⟨_, last, ?_, (run_cons_eq_some SharedWorld.step).mpr ⟨told, produces, ran⟩, ?_⟩
  · intro action listed
    rcases List.mem_cons.mp listed with rfl | later
    · trivial
    · rcases List.mem_cons.mp later with rfl | turns
      · trivial
      · rw [List.eq_of_mem_replicate turns]
        trivial
  · constructor
    · exact follows.poster_eq.trans noPoster
    · exact idle
    · exact follows.posted_eq
    · rw [sq]
      exact empty
    · rw [consumed, follows.written_eq, longer]
      exact congrArg (· + 1) read
    · exact word
    · rw [follows.written_eq, longer]
    · refine ⟨record, ?_, status⟩
      rw [reported, follows.posted_eq]
      exact List.mem_append_right _ (List.mem_singleton.mpr rfl)

end SharedWorld

/-- No call on a queue waits.  Whatever the other thread and the device do meanwhile, a
posting call takes at most eight turns for each of its requests and three more, a polling
call four for each element of its array and two more; a thread can always take its turn,
so from wherever a run stands its calls come to their ends. -/
theorem cdmaUPostJfsWr_cdmaUPollJfc_wait_free {start middle final : SharedWorld}
    {before after : List SharedAction} (idle : start.poller = none)
    (reached : run SharedWorld.step start before = some middle)
    (ran : run SharedWorld.step middle after = some final) :
    after.countP SharedAction.isPoster ≤
      middle.posterLeft + (after.map SharedAction.posterTurns).sum ∧
    after.countP SharedAction.isPoller ≤
      middle.pollerLeft + (after.map SharedAction.pollerTurns).sum ∧
    ∃ turns last, (∀ action ∈ turns, action = .poster ∨ action = .poller) ∧
      run SharedWorld.step final turns = some last ∧ last.poster = none ∧ last.poller = none := by
  have keeps (state : SharedWorld) (action : SharedAction) (next : SharedWorld)
      (within : state.Within) (stepped : state.step action = some next) : next.Within :=
    within.step stepped
  have starts : start.Within := by
    intro thread active
    rw [idle] at active
    cases active
  have middleWithin := run_invariant SharedWorld.step keeps starts reached
  have finalWithin := run_invariant SharedWorld.step keeps middleWithin ran
  have posting : final.posterLeft + after.countP SharedAction.isPoster ≤
      middle.posterLeft + (after.map SharedAction.posterTurns).sum :=
    count_le_credit keeps (fun _ _ _ _ stepped => SharedWorld.poster_pays stepped)
      middleWithin ran
  have polling : final.pollerLeft + after.countP SharedAction.isPoller ≤
      middle.pollerLeft + (after.map SharedAction.pollerTurns).sum :=
    count_le_credit keeps (fun _ _ _ within stepped => SharedWorld.poller_pays within stepped)
      middleWithin ran
  refine ⟨by omega, by omega, ?_⟩
  have stillWithin (state : SharedWorld) (thread : PostThread) (within : state.Within)
      (_ : state.poster = some thread) : (state.posterTurn thread).Within := by
    unfold SharedWorld.Within
    rw [state.posterTurn_poller]
    exact within
  have stillIdle (state : SharedWorld) (thread : PollThread) (none : state.poster = none)
      (_ : state.poller = some thread) : (state.pollerTurn thread).poster = .none :=
    (state.pollerTurn_poster thread).trans none
  obtain ⟨first, posted, posters, toPosted, within, noPoster⟩ :=
    SharedWorld.posting_ends stillWithin finalWithin
  obtain ⟨second, last, pollers, toLast, ⟨_, stillNoPoster⟩, noPoller⟩ :=
    SharedWorld.polling_ends stillIdle within noPoster
  refine ⟨first ++ second, last, ?_, run_append SharedWorld.step toPosted toLast, stillNoPoster,
    noPoller⟩
  intro action listed
  rcases List.mem_append.mp listed with early | late
  · exact .inl (posters action early)
  · exact .inr (pollers action late)

theorem cdmaUPostJfsWr_cdmaUPollJfc_wait_free_fourBlocks :
    SharedWorld.overlapping.countP SharedAction.isPoster ≤
      (SharedWorld.overlapping.map SharedAction.posterTurns).sum ∧
    SharedWorld.overlapping.countP SharedAction.isPoller ≤
      (SharedWorld.overlapping.map SharedAction.pollerTurns).sum := by
  have runs : (run SharedWorld.step .fourBlocks SharedWorld.overlapping).isSome := by
    decide +kernel
  obtain ⟨final, ran⟩ := Option.isSome_iff_exists.mp runs
  have toStart : run SharedWorld.step .fourBlocks [] = some .fourBlocks := rfl
  obtain ⟨posting, polling, _⟩ := cdmaUPostJfsWr_cdmaUPollJfc_wait_free rfl toStart ran
  exact ⟨posting.trans (Nat.le_of_eq (Nat.zero_add _)),
    polling.trans (Nat.le_of_eq (Nat.zero_add _))⟩

/-- No run leaves the queue stuck.  From every reachable state in which a request is still
to be completed and the device has room for an entry, the calls under way can be brought
to their ends and, with one entry and without posting anything new, every accepted
request completed: both rings are empty then, the device knows, and the last request's
record is handed over with its own context. -/
theorem cdmaUPostJfsWr_cdmaUPollJfc_drains {start final : SharedWorld}
    {shift cqShift stride : Nat} (initial : start.Initial shift cqShift stride)
    (small : shift ≤ 16) (narrow : cqShift < 22) (queue : start.queue ≠ 0)
    {actions : List SharedAction} (ran : run SharedWorld.step start actions = some final)
    (free : final.Free) (pending : final.announced < final.posted.length) :
    ∃ rest last, (∀ action ∈ rest, SharedAction.Plain action) ∧
      run SharedWorld.step final rest = some last ∧
      last.poster = none ∧ last.poller = none ∧
      (∃ more, last.posted = final.posted ++ more) ∧
      last.written.length = final.written.length + 1 ∧
      last.sq.ci = last.sq.pi ∧ last.consumed = last.written.length ∧
      last.memory.word last.jfc.swDb = last.jfc.cq.ci &&& cdmaJfcDbCiIdxM ∧
      ∃ record request, last.posted.getLast? = some request ∧
        (record, some (last.posted.length - 1)) ∈ last.reported ∧ record.status = .success ∧
        record.userCtx = request.wr.userCtx := by
  have startWithin : start.Within := by
    intro thread active
    rw [initial.poller_eq] at active
    cases active
  have keeps (state : SharedWorld) (action : SharedAction) (next : SharedWorld)
      (inv : state.Within ∧ state.queue = start.queue)
      (stepped : state.step action = some next) : next.Within ∧ next.queue = start.queue :=
    ⟨inv.1.step stepped, (SharedWorld.queue_eq_of_step stepped).trans inv.2⟩
  obtain ⟨within, named⟩ := run_invariant SharedWorld.step keeps ⟨startWithin, rfl⟩ ran
  obtain ⟨ci, polled, published, seen, inv⟩ := initial.interleaved.run small narrow ran
  have roomy : final.Roomy shift cqShift stride start.pi :=
    ⟨ci, polled, published, seen, inv, (inv.polling.arriving.free_iff narrow).mp free⟩
  obtain ⟨reads, settled, plainReads, toSettled, _, settledRoomy, follows, idle, read⟩ :=
    roomy.reads_all small within
  obtain ⟨posts, quiet, plainPosts, toQuiet, quietRoomy, onto, noPoster⟩ :=
    settledRoomy.posting_ends
  obtain ⟨more, posted⟩ := onto.posted_eq
  rw [follows.posted_eq] at posted
  have quietQueue : quiet.queue ≠ 0 := by
    rw [onto.queue_eq, follows.queue_eq, named]
    exact queue
  have quietRead : quiet.consumed = quiet.written.length := by
    rw [onto.consumed_eq, onto.written_eq, read]
  have quietPending : quiet.announced < quiet.posted.length := by
    rw [onto.announced_eq, follows.announced_eq, posted, List.length_append]
    omega
  obtain ⟨closing, last, plainClosing, toLast, drained⟩ :=
    quietRoomy.drains small narrow quietQueue noPoster (onto.poller_eq.trans idle) quietRead
      quietPending
  have toEnd := run_append SharedWorld.step toSettled (run_append SharedWorld.step toQuiet toLast)
  refine ⟨_, last, List.forall_mem_append.mpr
    ⟨plainReads, List.forall_mem_append.mpr ⟨plainPosts, plainClosing⟩⟩, toEnd,
    drained.poster_eq, drained.poller_eq, ⟨more, drained.posted_eq.trans posted⟩, ?_,
    drained.empty, drained.read, drained.published, ?_⟩
  · rw [drained.written, onto.written_eq, follows.written_eq]
  · obtain ⟨record, handed, status⟩ := drained.reported
    have lastInv := initial.interleaved.run small narrow
      (run_append SharedWorld.step ran toEnd)
    obtain ⟨_, _, _, _, lastKept⟩ := lastInv
    obtain ⟨request, isPosted, own⟩ := lastKept.safe.reported record _ handed
    exact ⟨record, request, List.getLast?_eq_getElem?.trans isPosted, handed, status, own⟩

theorem cdmaUPostJfsWr_cdmaUPollJfc_drains_fourBlocks :
    ∃ final, run SharedWorld.step .fourBlocks SharedWorld.overlapping = some final ∧
      final.announced = 1 ∧ final.posted.length = 2 ∧
      ∃ rest last, run SharedWorld.step final rest = some last ∧ last.poster = none ∧
        last.poller = none ∧ last.sq.ci = last.sq.pi ∧ last.consumed = last.written.length := by
  have leaves : (run SharedWorld.step .fourBlocks SharedWorld.overlapping).map
      (fun final => (final.announced, final.posted.length, decide final.Free)) =
        some (1, 2, true) := by
    decide +kernel
  obtain ⟨final, ran, found⟩ := Option.map_eq_some_iff.mp leaves
  obtain ⟨announced, rest⟩ := Prod.mk.inj found
  obtain ⟨posted, free⟩ := Prod.mk.inj rest
  have pending : final.announced < final.posted.length := by
    rw [announced, posted]
    exact Nat.one_lt_two
  obtain ⟨rest, last, _, drained, noPoster, noPoller, _, _, empty, read, _⟩ :=
    cdmaUPostJfsWr_cdmaUPollJfc_drains SharedWorld.fourBlocks_initial (by decide) (by decide)
      (by decide) ran (of_decide_eq_true free) pending
  exact ⟨final, ran, announced, posted, rest, last, drained, noPoster, noPoller, empty, read⟩

end Libcdma
