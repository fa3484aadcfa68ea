/-
From completion entries back to the requests they complete.

Posting and polling meet only in the indices of the send ring.  The world below
interleaves them with a device that completes requests in posting order and may
overrun the completion ring, which loses entries but not their order: the
consumer index stays at or before every request whose entry is still to come.
-/

import Libcdma.RequestContexts

namespace Libcdma

open WrapCounter LapRing Transition

/-- Entries with the request each completes, read off the ring, and how many of
the entries written lie behind the last one taken. -/
structure Delivery (cqShift stride seen : Nat) (cq : CdmaUJettyQueue)
    (slots : Nat → CdmaUJfcCqe × Option Nat) (written : List (CdmaUJfcCqe × Option Nat)) :
    Prop where
  geometry : CqGeometry cq cqShift stride
  index : ∃ consumed laps, cq.ci = counter consumed ∧ seen = consumed + laps * (2 * 2 ^ cqShift)
  behind : seen ≤ written.length
  stamped : Stamped (fun entry => entry.1.owner) (2 ^ cqShift) slots written.length
  recent : Recent (2 ^ cqShift) slots written

namespace Delivery

variable {cqShift stride seen : Nat} {cq : CdmaUJettyQueue}
  {slots : Nat → CdmaUJfcCqe × Option Nat} {written : List (CdmaUJfcCqe × Option Nat)}

theorem write (delivery : Delivery cqShift stride seen cq slots written) (cqe : CdmaUJfcCqe)
    (request : Option Nat) :
    Delivery cqShift stride seen cq
      (Function.update slots (written.length % 2 ^ cqShift)
        (deviceEntry cq written.length cqe, request))
      (written ++ [(deviceEntry cq written.length cqe, request)]) := by
  have behind := delivery.behind
  refine ⟨delivery.geometry, delivery.index, ?_, ?_, delivery.recent.write _⟩
  · rw [List.length_append]
    omega
  · rw [List.length_append, List.length_singleton]
    apply delivery.stamped.write
    unfold deviceEntry
    rw [delivery.geometry.cnt_toNat]

/-- An entry that passes the owner test was written after all those taken before,
in a lap of the same parity. -/
theorem take {jfc : CdmaUJfc} {memory : Memory}
    (delivery : Delivery cqShift stride seen jfc.cq slots written)
    (same : ∀ slot, (slots slot).1 = memory.cqe (jfc.cq.slotAddress slot)) {address : Nat}
    (found : cdmaUGetNextCqe jfc memory jfc.cq.ci = some address) :
    ∃ rounds slot, address = jfc.cq.slotAddress slot ∧
      written[seen + rounds * (2 * 2 ^ cqShift)]? = some (slots slot) ∧
      Delivery cqShift stride (seen + rounds * (2 * 2 ^ cqShift) + 1)
        (jfc.setCi (jfc.cq.ci + 1)).cq slots written := by
  obtain ⟨consumed, laps, ci_eq, seen_eq⟩ := delivery.index
  have positive := Nat.two_pow_pos cqShift
  have test := cdmaUGetNextCqe_counter delivery.geometry memory ci_eq consumed
  rw [← ci_eq, found] at test
  split at test
  · rename_i valid
    cases test
    have shifted : seen = consumed + laps * 2 * 2 ^ cqShift := by rw [seen_eq, Nat.mul_assoc]
    have slot_eq : seen % 2 ^ cqShift = consumed % 2 ^ cqShift := by
      rw [shifted, Nat.add_mul_mod_self_right]
    have lap_eq : lapOwner (2 ^ cqShift) seen = lapOwner (2 ^ cqShift) consumed := by
      rw [shifted, lapOwner_add_laps positive, Nat.mul_mod_left]
      simp
    have stamp : (slots (seen % 2 ^ cqShift)).1.owner = lapOwner (2 ^ cqShift) seen := by
      rw [same, slot_eq, lap_eq]
      exact valid
    obtain ⟨rounds, before, near⟩ :=
      delivery.stamped.later_of_valid positive delivery.behind stamp
    have here : written[seen + rounds * (2 * 2 ^ cqShift)]? =
        some (slots (consumed % 2 ^ cqShift)) := by
      have entry := List.getElem?_eq_getElem before
      have held := delivery.recent _ _ entry near
      have slotAt : (seen + rounds * (2 * 2 ^ cqShift)) % 2 ^ cqShift =
          consumed % 2 ^ cqShift := by
        rw [← Nat.mul_assoc, Nat.add_mul_mod_self_right, slot_eq]
      rw [slotAt] at held
      rw [entry, held]
    refine ⟨rounds, _, rfl, here, delivery.geometry.setCi _,
      ⟨consumed + 1, laps + rounds, ?_, ?_⟩, before, delivery.stamped, delivery.recent⟩
    · rw [← counter_succ, ← ci_eq]
      rfl
    · rw [seen_eq, Nat.add_mul]
      omega
  · cases test

end Delivery

/-- A send queue at an address in memory and a completion queue that its
completions come to, perhaps with those of other queues. -/
structure QueueWorld where
  ctx : CdmaUContext
  queue : UInt64
  jfc : CdmaUJfc
  memory : Memory
  call : Option PollCall
  /-- the producer index of the send ring, unbounded -/
  pi : Nat
  posted : List SqRequest
  /-- how many of the requests posted the device has completed -/
  completed : Nat
  /-- the requests that entries may still complete start here -/
  announced : Nat
  /-- every entry written, with the request it completes -/
  written : List (CdmaUJfcCqe × Option Nat)
  /-- the request completed by the entry at an address -/
  completes : Nat → Option Nat
  /-- the same for the elements of the caller's array -/
  marks : UInt32 → Option Nat
  reported : List (DmaCr × Option Nat)

inductive QueueAction where
  | post (wrs : List DmaJfsWr)
  | complete
  | produce (cqe : CdmaUJfcCqe) (request : Option Nat)
  | call (crCnt : UInt32) (cr : UInt32 → DmaCr)
  | turn

namespace QueueWorld

def sq (w : QueueWorld) : CdmaUJettyQueue := w.memory.queue w.queue

def slots (w : QueueWorld) (slot : Nat) : CdmaUJfcCqe × Option Nat :=
  (w.memory.cqe (w.jfc.cq.slotAddress slot), w.completes (w.jfc.cq.slotAddress slot))

/-- An entry that completes a request names one of its blocks; one that completes
none is flush-done or another queue's. -/
def Names (queue : UInt64) (posted : List SqRequest) (cqe : CdmaUJfcCqe) : Option Nat → Prop
  | none => cqe.fd = true ∨ cqe.userData ≠ queue
  | some index => cqe.fd = false ∧ cqe.userData = queue ∧
      ∃ request ∈ posted[index]?, ∃ offset ∈ List.range request.blocks,
        cqe.entryIdx = (counter (request.first + offset)).toUInt16

instance (queue : UInt64) (posted : List SqRequest) (cqe : CdmaUJfcCqe) (request : Option Nat) :
    Decidable (Names queue posted cqe request) := by
  cases request <;> unfold Names <;> infer_instance

def post (w : QueueWorld) (wrs : List DmaJfsWr) : QueueWorld :=
  let posted := postedRequests w.ctx wrs w.pi ⟨w.memory.byte, w.sq, none, false⟩
  { w with
    memory := (cdmaUPostJfsWr w.ctx w.memory w.queue wrs).1
    pi := w.pi + blockSum posted
    posted := w.posted ++ posted }

/-- The device writes into the slot after the last one, full or not. -/
def produce (w : QueueWorld) (cqe : CdmaUJfcCqe) (request : Option Nat) : QueueWorld :=
  let index := w.written.length
  { w with
    memory := deviceWrite w.jfc.cq w.memory index cqe
    written := w.written ++ [(deviceEntry w.jfc.cq index cqe, request)]
    completes := Function.update w.completes
      (w.jfc.cq.slotAddress (index % w.jfc.cq.baseblkCnt.toNat)) request
    completed := request.elim w.completed (fun index => max w.completed (index + 1))
    announced := request.elim w.announced (· + 1) }

/-- The marks after the entry at the consumer index, if there is one, goes to the
next element of the caller's array. -/
def marksAfter (w : QueueWorld) (call : PollCall) : UInt32 → Option Nat :=
  match cdmaUGetNextCqe w.jfc w.memory w.jfc.cq.ci with
  | none => w.marks
  | some address => Function.update w.marks call.npolled (w.completes address)

def applyTurn (w : QueueWorld) (marks : UInt32 → Option Nat) : PollTurn → QueueWorld
  | .again jfc memory call =>
      { w with jfc := jfc, memory := memory, call := some call, marks := marks }
  | .exit jfc memory call value =>
      { w with
        jfc := jfc
        memory := memory
        call := none
        marks := marks
        reported := w.reported ++ (List.range value.toNat).map
          (fun place => (call.cr (counter place), marks (counter place))) }

def turn (w : QueueWorld) (call : PollCall) : QueueWorld :=
  w.applyTurn (w.marksAfter call) (cdmaUPollJfcTurn w.jfc w.memory call)

/-- Requests complete in posting order, each with one entry or none. -/
def step (w : QueueWorld) : QueueAction → Option QueueWorld
  | .post wrs => some (w.post wrs)
  | .complete =>
      if w.completed < w.posted.length then some { w with completed := w.completed + 1 } else none
  | .produce cqe request =>
      if Names w.queue w.posted cqe request ∧ ∀ index ∈ request, w.announced ≤ index
      then some (w.produce cqe request) else none
  | .call crCnt cr =>
      match w.call with
      | none => some { w with call := some (.start crCnt cr) }
      | some _ => none
  | .turn => w.call.map w.turn

/-- Nothing posted, both indices of the send ring anywhere, a fresh completion queue. -/
structure Initial (w : QueueWorld) (shift cqShift stride : Nat) : Prop where
  ring : SqAt shift w.sq w.pi w.pi
  geometry : CqGeometry w.jfc.cq cqShift stride
  ci_eq : w.jfc.cq.ci = 0
  zeroed : ∀ slot, slot < 2 ^ cqShift → w.memory.cqe (w.jfc.cq.slotAddress slot) = .zeroed
  posted_eq : w.posted = []
  completed_eq : w.completed = 0
  announced_eq : w.announced = 0
  written_eq : w.written = []
  call_eq : w.call = none
  reported_eq : w.reported = []

def tagAt (written : List (CdmaUJfcCqe × Option Nat)) (place : Nat) : Option Nat :=
  written[place]?.bind Prod.snd

/-- The requests completed by the entries written, in order, and those from a
place on still to be polled. -/
structure Tagged (queue : UInt64) (posted : List SqRequest)
    (written : List (CdmaUJfcCqe × Option Nat)) (announced completed polled seen : Nat) :
    Prop where
  names : ∀ entry ∈ written, Names queue posted entry.1 entry.2
  sorted : ∀ early late first second, early < late → tagAt written early = some first →
    tagAt written late = some second → first < second
  pending : ∀ place index, seen ≤ place → tagAt written place = some index → polled ≤ index
  below : ∀ place index, tagAt written place = some index → index < announced
  polled_le : polled ≤ announced
  announced_le : announced ≤ completed

theorem Names.append {queue : UInt64} {posted : List SqRequest} {cqe : CdmaUJfcCqe}
    {request : Option Nat} (names : Names queue posted cqe request) (more : List SqRequest) :
    Names queue (posted ++ more) cqe request := by
  cases request with
  | none => exact names
  | some index =>
      obtain ⟨plain, own, found, here, block⟩ := names
      refine ⟨plain, own, found, ?_, block⟩
      have inside := (List.getElem?_eq_some_iff.mp here).1
      rw [Option.mem_def, List.getElem?_append_left inside]
      exact here

theorem tagAt_concat (written : List (CdmaUJfcCqe × Option Nat)) (cqe : CdmaUJfcCqe)
    (request : Option Nat) {place index : Nat}
    (tag : tagAt (written ++ [(cqe, request)]) place = some index) :
    tagAt written place = some index ∨ place = written.length ∧ request = some index := by
  unfold tagAt at tag ⊢
  rcases Nat.lt_trichotomy place written.length with before | last | beyond
  · rw [List.getElem?_append_left before] at tag
    exact .inl tag
  · subst last
    rw [List.getElem?_concat_length] at tag
    exact .inr ⟨rfl, tag⟩
  · rw [List.getElem?_eq_none (by simp; omega)] at tag
    cases tag

theorem tagAt_lt {written : List (CdmaUJfcCqe × Option Nat)} {place index : Nat}
    (tag : tagAt written place = some index) : place < written.length := by
  by_contra beyond
  rw [tagAt, List.getElem?_eq_none (by omega)] at tag
  cases tag

namespace Tagged

variable {queue : UInt64} {posted : List SqRequest}
  {written : List (CdmaUJfcCqe × Option Nat)} {announced completed polled seen : Nat}

theorem write (tagged : Tagged queue posted written announced completed polled seen)
    {cqe : CdmaUJfcCqe} {request : Option Nat} (names : Names queue posted cqe request)
    (ahead : ∀ index ∈ request, announced ≤ index) :
    Tagged queue posted (written ++ [(cqe, request)]) (request.elim announced (· + 1))
      (request.elim completed (fun index => max completed (index + 1))) polled seen := by
  have grows : announced ≤ request.elim announced (· + 1) := by
    cases request with
    | none => exact Nat.le_refl _
    | some index => exact Nat.le_succ_of_le (ahead index rfl)
  refine ⟨fun entry member => ?_, fun early late first second ordered isFirst isSecond => ?_,
    fun place index later tag => ?_, fun place index tag => ?_,
    Nat.le_trans tagged.polled_le grows, ?_⟩
  · rcases List.mem_append.mp member with older | newest
    · exact tagged.names entry older
    · cases List.mem_singleton.mp newest
      exact names
  · rcases tagAt_concat _ _ _ isSecond with older | ⟨rfl, rfl⟩
    · have inside := tagAt_lt older
      rcases tagAt_concat _ _ _ isFirst with oldest | ⟨rfl, _⟩
      · exact tagged.sorted early late first second ordered oldest older
      · omega
    · rcases tagAt_concat _ _ _ isFirst with oldest | ⟨rfl, _⟩
      · exact Nat.lt_of_lt_of_le (tagged.below early first oldest) (ahead second rfl)
      · omega
  · rcases tagAt_concat _ _ _ tag with older | ⟨_, rfl⟩
    · exact tagged.pending place index later older
    · exact Nat.le_trans tagged.polled_le (ahead index rfl)
  · rcases tagAt_concat _ _ _ tag with older | ⟨_, rfl⟩
    · exact Nat.lt_of_lt_of_le (tagged.below place index older) grows
    · exact Nat.lt_succ_self index
  · cases request with
    | none => exact tagged.announced_le
    | some index => exact Nat.le_max_right _ _

theorem take_none (tagged : Tagged queue posted written announced completed polled seen)
    {place : Nat} (later : seen ≤ place) :
    Tagged queue posted written announced completed polled (place + 1) :=
  ⟨tagged.names, tagged.sorted,
    fun other index after tag => tagged.pending other index (by omega) tag, tagged.below,
    tagged.polled_le, tagged.announced_le⟩

theorem take_some (tagged : Tagged queue posted written announced completed polled seen)
    {place index : Nat} (tag : tagAt written place = some index) :
    Tagged queue posted written announced completed (index + 1) (place + 1) :=
  ⟨tagged.names, tagged.sorted,
    fun other next after isNext => tagged.sorted place other index next after tag isNext,
    tagged.below, tagged.below place index tag, tagged.announced_le⟩

end Tagged

/-! ### The invariant -/

def Carries (posted : List SqRequest) (record : DmaCr) (index : Nat) : Prop :=
  ∃ request, posted[index]? = some request ∧ record.userCtx = request.wr.userCtx

theorem Carries.append {posted : List SqRequest} {record : DmaCr} {index : Nat}
    (carries : Carries posted record index) (more : List SqRequest) :
    Carries (posted ++ more) record index := by
  obtain ⟨request, here, same⟩ := carries
  have inside := (List.getElem?_eq_some_iff.mp here).1
  exact ⟨request, (List.getElem?_append_left inside).trans here, same⟩

def Collected (posted : List SqRequest) (call : PollCall) (marks : UInt32 → Option Nat) : Prop :=
  ∀ place, place < call.npolled → ∀ index, marks place = some index →
    Carries posted (call.cr place) index

structure Routed (w : QueueWorld) (shift cqShift stride start ci polled seen : Nat) : Prop where
  send : Untouched shift start ci polled w.sq w.pi w.posted
  delivery : Delivery cqShift stride seen w.jfc.cq w.slots w.written
  tagged : Tagged w.queue w.posted w.written w.announced w.completed polled seen
  reported : ∀ record index, (record, some index) ∈ w.reported → Carries w.posted record index
  collected : ∀ call, w.call = some call → Collected w.posted call w.marks

theorem exit_place_lt {npolled : UInt32} {ret : JfcPollState} {place : Nat}
    (handed : place < (if ret = .pollErr then -cdmaInterErr else npolled.toInt32.toInt).toNat) :
    counter place < npolled := by
  have reading : npolled.toInt32.toInt = npolled.toBitVec.toInt := rfl
  have natural : npolled.toBitVec.toNat = npolled.toNat := rfl
  have bounded := npolled.toNat_lt
  split at handed
  · exact absurd handed (Nat.not_lt_zero place)
  · rw [reading, BitVec.toInt_eq_toNat_cond, natural] at handed
    rw [UInt32.lt_iff_toNat_lt, toNat_counter]
    split at handed <;> omega

variable {w next : QueueWorld} {shift cqShift stride start ci polled seen : Nat} {call : PollCall}

theorem Routed.post (routed : w.Routed shift cqShift stride start ci polled seen)
    (wrs : List DmaJfsWr) : (w.post wrs).Routed shift cqShift stride start ci polled seen := by
  have tagged := routed.tagged
  refine ⟨?_, routed.delivery, ⟨fun entry member => (tagged.names entry member).append _,
    tagged.sorted, tagged.pending, tagged.below, tagged.polled_le, tagged.announced_le⟩,
    fun record index member => (routed.reported record index member).append _,
    fun call active place below index mark =>
      (routed.collected call active place below index mark).append _⟩
  have sent := routed.send.post w.ctx w.memory.byte wrs
  have posted : (w.post wrs).sq = (cdmaPostSqWr w.ctx w.memory.byte w.sq wrs).sq := by
    unfold QueueWorld.post QueueWorld.sq cdmaUPostJfsWr
    exact Function.update_self _ _ _
  rw [posted]
  exact sent

theorem Routed.produce (routed : w.Routed shift cqShift stride start ci polled seen)
    {cqe : CdmaUJfcCqe} {request : Option Nat} (names : Names w.queue w.posted cqe request)
    (ahead : ∀ index ∈ request, w.announced ≤ index) :
    (w.produce cqe request).Routed shift cqShift stride start ci polled seen := by
  have stored : ∀ request, Names w.queue w.posted cqe request →
      Names w.queue w.posted (deviceEntry w.jfc.cq w.written.length cqe) request := by
    intro request names
    cases request <;> exact names
  refine ⟨routed.send, ?_, routed.tagged.write (stored request names) ahead, routed.reported,
    routed.collected⟩
  have slots : (w.produce cqe request).slots =
      Function.update w.slots (w.written.length % 2 ^ cqShift)
        (deviceEntry w.jfc.cq w.written.length cqe, request) := by
    have cnt := routed.delivery.geometry.cnt_toNat
    funext slot
    unfold QueueWorld.produce QueueWorld.slots deviceWrite
    simp only [Memory.setCqe_cqe, cnt]
    by_cases same : slot = w.written.length % 2 ^ cqShift
    · subst same
      simp only [Function.update_self]
    · have apart : w.jfc.cq.slotAddress slot ≠
          w.jfc.cq.slotAddress (w.written.length % 2 ^ cqShift) :=
        fun equal => same (w.jfc.cq.slotAddress_injective equal)
      simp only [Function.update_of_ne same, Function.update_of_ne apart]
  rw [slots]
  exact routed.delivery.write cqe request

/-- What taking an entry does to the send queue, and whose context its record gets. -/
theorem Routed.parse (routed : w.Routed shift cqShift stride start ci polled seen)
    (small : shift ≤ 16) {place : Nat} {cqe : CdmaUJfcCqe} {request : Option Nat}
    (here : w.written[place]? = some (cqe, request)) (later : seen ≤ place) (cr : DmaCr) :
    ∃ reached,
      Untouched shift start reached (request.elim polled (· + 1))
        ((cdmaParseCqeForJfc w.memory cqe cr).memory.queue w.queue) w.pi w.posted ∧
      Tagged w.queue w.posted w.written w.announced w.completed (request.elim polled (· + 1))
        (place + 1) ∧
      (cqe.good = true → ∀ index, request = some index →
        Carries w.posted (cdmaParseCqeForJfc w.memory cqe cr).cr index) := by
  have names := routed.tagged.names _ (List.mem_of_getElem? here)
  have tag : tagAt w.written place = request := by rw [tagAt, here]; rfl
  cases request with
  | none =>
      obtain ⟨flag, same⟩ := cdmaParseCqeForJfc_foreign w.memory cr names
      rw [same]
      exact ⟨ci, routed.send.flag flag, routed.tagged.take_none later,
        fun _ index impossible => by cases impossible⟩
  | some index =>
      obtain ⟨plain, own, posted, isPosted, offset, inside, named⟩ := names
      have tagged := routed.tagged.take_some tag
      have fresh := routed.tagged.pending place index later tag
      obtain ⟨behind, held⟩ := routed.send.ahead index posted fresh isPosted
      have within := List.mem_range.mp inside
      have bounds := routed.send.chain.mem_bounds (List.mem_of_getElem? isPosted)
      have room := routed.send.ring.room
      have next_eq : posted.next = posted.first + posted.blocks := rfl
      have unconsumed : ci ≤ posted.first + offset := by omega
      have block := completionIndex_eq routed.send.ring small unconsumed (by omega) named
      by_cases null : w.queue = 0
      · rw [cdmaParseCqeForJfc_null w.memory cr (own.trans null)]
        refine ⟨ci, ⟨routed.send.ring, routed.send.chain, fun other request beyond =>
          routed.send.ahead other request (fresh.trans (Nat.le_of_succ_le beyond))⟩, tagged,
          fun good => ?_⟩
        simp [CdmaUJfcCqe.good, CdmaUJfcCqe.invalid, own.trans null] at good
      · rw [cdmaParseCqeForJfc_own w.memory cr plain own null]
        change ∃ reached, Untouched shift start reached (index + 1)
          { w.sq with ci := completionIndex w.sq cqe + _ } _ _ ∧ _
        rw [block]
        refine ⟨posted.first + offset + if cqe.good then 1 else 0, ?_, tagged,
          fun good other same => ?_⟩
        · have sum : counter (posted.first + offset) + (if cqe.good then 1 else 0) =
              counter (posted.first + offset + if cqe.good then 1 else 0) := by
            cases cqe.good
            · exact counter_add _ 0
            · exact counter_add _ 1
          rw [sum]
          exact routed.send.consume fresh isPosted (by omega) (by split <;> omega)
        · cases same
          refine ⟨posted, isPosted, ?_⟩
          rw [(cdmaParseCqeForJfc_good w.memory cr good).2]
          change (w.memory.queue cqe.userData).wrid
            (completionIndex (w.memory.queue cqe.userData) cqe &&& _) = _
          rw [own]
          change w.sq.wrid (completionIndex w.sq cqe &&& w.sq.baseblkMask) = _
          rw [block]
          exact held offset within

theorem Routed.exit {jfc : CdmaUJfc} {memory : Memory} {marks : UInt32 → Option Nat}
    (routed : (w.applyTurn marks (.again jfc memory call)).Routed shift cqShift stride start ci
      polled seen) (ret : JfcPollState) :
    (w.applyTurn marks (cdmaUPollJfcExit jfc memory call ret)).Routed shift cqShift stride start
      ci polled seen := by
  have collected := routed.collected call rfl
  unfold cdmaUPollJfcExit
  refine ⟨?_, ?_, routed.tagged, fun record index member => ?_,
    fun other active => by cases active⟩
  · have send := routed.send
    unfold QueueWorld.sq at send ⊢
    split <;> exact send
  · have delivery := routed.delivery
    unfold QueueWorld.slots at delivery ⊢
    split <;> exact delivery
  · rcases List.mem_append.mp member with older | newest
    · exact routed.reported record index older
    · obtain ⟨place, handed, pair⟩ := List.mem_map.mp newest
      obtain ⟨rfl, mark⟩ := Prod.mk.inj pair
      exact collected _ (exit_place_lt (List.mem_range.mp handed)) index mark

theorem marksAfter_of_ne (w : QueueWorld) (call : PollCall) {place : UInt32}
    (other : place ≠ call.npolled) : w.marksAfter call place = w.marks place := by
  unfold marksAfter
  cases cdmaUGetNextCqe w.jfc w.memory w.jfc.cq.ci with
  | none => rfl
  | some address => exact Function.update_of_ne other _ _

theorem Routed.turn_idle (routed : w.Routed shift cqShift stride start ci polled seen)
    (active : w.call = some call) (idle : call.upcoming w.jfc w.memory = none) :
    (w.turn call).Routed shift cqShift stride start ci polled seen := by
  unfold QueueWorld.turn
  rw [cdmaUPollJfcTurn_idle idle]
  apply Routed.exit
  refine ⟨routed.send, routed.delivery, routed.tagged, routed.reported,
    fun other same place below index mark => ?_⟩
  cases same
  have apart : place ≠ call.npolled := fun same => UInt32.lt_irrefl _ (same ▸ below)
  change w.marksAfter call place = some index at mark
  rw [w.marksAfter_of_ne call apart] at mark
  exact routed.collected call active place below index mark

theorem Routed.turn_takes (routed : w.Routed shift cqShift stride start ci polled seen)
    (small : shift ≤ 16) (active : w.call = some call) {cqe : CdmaUJfcCqe}
    (meets : call.upcoming w.jfc w.memory = some cqe) :
    ∃ reached rounds request, w.written[seen + rounds * (2 * 2 ^ cqShift)]? =
        some (cqe, request) ∧
      (w.turn call).Routed shift cqShift stride start reached (request.elim polled (· + 1))
        (seen + rounds * (2 * 2 ^ cqShift) + 1) := by
  have more : call.npolled < call.crCnt := by
    by_contra full
    simp [PollCall.upcoming, full] at meets
  have next := meets
  rw [PollCall.upcoming, if_pos more, Option.map_eq_some_iff] at next
  obtain ⟨address, found, isEntry⟩ := next
  obtain ⟨rounds, slot, rfl, here, delivery⟩ := routed.delivery.take (fun _ => rfl) found
  have entry : w.slots slot = (cqe, w.completes (w.jfc.cq.slotAddress slot)) := by
    rw [← isEntry]
    rfl
  rw [entry] at here
  obtain ⟨reached, send, tagged, carries⟩ :=
    routed.parse small here (Nat.le_add_right _ _) (call.cr call.npolled)
  have frame := cdmaParseCqeForJfc_frame w.memory cqe (call.cr call.npolled)
  have marks : w.marksAfter call =
      Function.update w.marks call.npolled (w.completes (w.jfc.cq.slotAddress slot)) := by
    unfold marksAfter
    rw [found]
  refine ⟨reached, rounds, _, here, ?_⟩
  unfold QueueWorld.turn
  rw [cdmaUPollJfcTurn_meets meets, marks]
  generalize cdmaParseCqeForJfc w.memory cqe (call.cr call.npolled) = parsed at send carries frame ⊢
  have running : ∀ npolled, (∀ place, place < npolled →
      place < call.npolled ∨ place = call.npolled ∧ cqe.good = true) →
      (w.applyTurn (Function.update w.marks call.npolled
          (w.completes (w.jfc.cq.slotAddress slot)))
        (.again (w.jfc.setCi (w.jfc.cq.ci + 1)) parsed.memory
          { call with
            npolled := npolled
            cr := Function.update call.cr call.npolled parsed.cr })).Routed
        shift cqShift stride start reached
        ((w.completes (w.jfc.cq.slotAddress slot)).elim polled (· + 1))
        (seen + rounds * (2 * 2 ^ cqShift) + 1) := by
    intro npolled filled
    refine ⟨send, ?_, tagged, routed.reported, fun other same element below index mark => ?_⟩
    · have same : ∀ slot, w.slots slot =
          (parsed.memory.cqe (w.jfc.cq.slotAddress slot),
            w.completes (w.jfc.cq.slotAddress slot)) := by
        intro slot
        rw [frame.1]
        rfl
      rw [funext same] at delivery
      exact delivery
    · cases same
      simp only at mark ⊢
      rcases filled element below with before | ⟨rfl, good⟩
      · have apart : element ≠ call.npolled :=
          fun same => UInt32.lt_irrefl _ (same ▸ before)
        change Function.update w.marks call.npolled _ element = some index at mark
        rw [Function.update_of_ne apart] at mark
        rw [Function.update_of_ne apart]
        exact routed.collected call active element before index mark
      · change Function.update w.marks _ _ _ = some index at mark
        rw [Function.update_self] at mark
        rw [Function.update_self]
        exact carries good index mark
  by_cases good : cqe.good = true
  · simp only [if_pos good]
    apply running
    intro element below
    by_cases last : element = call.npolled
    · exact .inr ⟨last, good⟩
    · exact .inl (by grind)
  · simp only [if_neg good]
    exact Routed.exit (running call.npolled (fun _ below => .inl below)) _

theorem Routed.step (routed : w.Routed shift cqShift stride start ci polled seen)
    (small : shift ≤ 16) {action : QueueAction} (stepped : w.step action = some next) :
    ∃ ci polled seen, next.Routed shift cqShift stride start ci polled seen := by
  cases action with
  | post wrs =>
      cases stepped
      exact ⟨ci, polled, seen, routed.post wrs⟩
  | complete =>
      simp only [QueueWorld.step, Option.ite_none_right_eq_some, Option.some.injEq] at stepped
      obtain ⟨_, rfl⟩ := stepped
      have tagged := routed.tagged
      exact ⟨ci, polled, seen, routed.send, routed.delivery,
        ⟨tagged.names, tagged.sorted, tagged.pending, tagged.below, tagged.polled_le,
          Nat.le_succ_of_le tagged.announced_le⟩, routed.reported, routed.collected⟩
  | produce cqe request =>
      simp only [QueueWorld.step, Option.ite_none_right_eq_some, Option.some.injEq] at stepped
      obtain ⟨⟨names, ahead⟩, rfl⟩ := stepped
      exact ⟨ci, polled, seen, routed.produce names ahead⟩
  | call crCnt cr =>
      simp only [QueueWorld.step] at stepped
      split at stepped
      · cases stepped
        refine ⟨ci, polled, seen, routed.send, routed.delivery, routed.tagged, routed.reported,
          fun call active place below => ?_⟩
        cases active
        exact absurd below UInt32.not_lt_zero
      · cases stepped
  | turn =>
      simp only [QueueWorld.step, Option.map_eq_some_iff] at stepped
      obtain ⟨call, active, rfl⟩ := stepped
      cases meets : call.upcoming w.jfc w.memory with
      | none => exact ⟨ci, polled, seen, routed.turn_idle active meets⟩
      | some cqe =>
          obtain ⟨reached, rounds, request, _, routed⟩ := routed.turn_takes small active meets
          exact ⟨reached, _, _, routed⟩

theorem Routed.run (routed : w.Routed shift cqShift stride start ci polled seen)
    (small : shift ≤ 16) {actions : List QueueAction}
    (ran : run QueueWorld.step w actions = some next) :
    ∃ ci polled seen, next.Routed shift cqShift stride start ci polled seen := by
  have keeps : ∀ (w : QueueWorld) (action : QueueAction) (next : QueueWorld),
      (∃ ci polled seen, w.Routed shift cqShift stride start ci polled seen) →
      w.step action = some next →
      ∃ ci polled seen, next.Routed shift cqShift stride start ci polled seen := by
    rintro w action next ⟨ci, polled, seen, routed⟩ stepped
    exact routed.step small stepped
  have held : ∃ ci polled seen, w.Routed shift cqShift stride start ci polled seen :=
    ⟨ci, polled, seen, routed⟩
  exact run_invariant QueueWorld.step keeps held ran

theorem Initial.routed (initial : w.Initial shift cqShift stride) :
    w.Routed shift cqShift stride w.pi w.pi 0 0 := by
  refine ⟨⟨initial.ring, ?_, fun index request _ here => ?_⟩,
    ⟨initial.geometry, ⟨0, 0, initial.ci_eq, by simp⟩, Nat.zero_le _, ?_, ?_⟩,
    ⟨?_, ?_, ?_, ?_, Nat.zero_le _, ?_⟩, ?_, ?_⟩
  · rw [initial.posted_eq]
    rfl
  · rw [initial.posted_eq] at here
    cases here
  · rw [initial.written_eq]
    apply Stamped.blank
    intro slot inside
    exact congrArg CdmaUJfcCqe.owner (initial.zeroed slot inside)
  · rw [initial.written_eq]
    intro index entry here
    cases here
  · rw [initial.written_eq]
    intro entry member
    cases member
  · rw [initial.written_eq]
    intro early late first second _ isFirst
    cases isFirst
  · rw [initial.written_eq]
    intro place index _ tag
    cases tag
  · rw [initial.written_eq]
    intro place index tag
    cases tag
  · rw [initial.announced_eq, initial.completed_eq]
  · rw [initial.reported_eq]
    intro record index member
    cases member
  · intro call active
    rw [initial.call_eq] at active
    cases active

end QueueWorld

/-- In every reachable state the producer is at most one ring ahead of the
consumer index, which has not passed a request the device has not completed;
such a request's contexts are in place; and every record handed over for an
entry that completes a request carries that request's context. -/
theorem cdmaUPollJfc_routes {start final : QueueWorld} {shift cqShift stride : Nat}
    (initial : start.Initial shift cqShift stride) (small : shift ≤ 16)
    {actions : List QueueAction} (ran : run QueueWorld.step start actions = some final) :
    final.sq.pi - final.sq.ci ≤ final.sq.baseblkCnt ∧
    (∀ index request, final.completed ≤ index → final.posted[index]? = some request →
      (counter request.first - final.sq.ci).toNat + request.blocks ≤
        (final.sq.pi - final.sq.ci).toNat ∧
      final.sq.Holds request) ∧
    (∀ record index, (record, some index) ∈ final.reported →
      ∃ request, final.posted[index]? = some request ∧
        record.userCtx = request.wr.userCtx) := by
  obtain ⟨ci, polled, seen, routed⟩ := initial.routed.run small ran
  have ring := routed.send.ring
  have ordered := ring.ordered
  have room := ring.room
  have cnt := ring.geometry.cnt_le
  have used : (final.sq.pi - final.sq.ci).toNat = final.pi - ci := by
    rw [ring.pi_eq, ring.ci_eq, toNat_counter_sub ordered (by omega)]
  refine ⟨?_, fun index request pending here => ?_, routed.reported⟩
  · rw [UInt32.le_iff_toNat_le, used, ring.geometry.cnt_toNat]
    omega
  · have polled_le := routed.tagged.polled_le
    have announced_le := routed.tagged.announced_le
    obtain ⟨behind, held⟩ := routed.send.ahead index request (by omega) here
    have bounds := routed.send.chain.mem_bounds (List.mem_of_getElem? here)
    have next_eq : request.next = request.first + request.blocks := rfl
    refine ⟨?_, held⟩
    rw [used, ring.ci_eq, toNat_counter_sub behind (by omega)]
    omega

/-- A send ring of four blocks about to wrap and a completion ring of the least depth. -/
def QueueWorld.fourBlocks : QueueWorld :=
  { ctx := SqWorld.fourBlocks.ctx
    queue := 2048
    jfc := CqWorld.minDepth.jfc
    memory := { CqWorld.minDepth.memory with queue := fun _ => SqWorld.fourBlocks.sq }
    call := none, pi := 4294967295, posted := [], completed := 0, announced := 0, written := []
    completes := fun _ => none, marks := fun _ => none, reported := [] }

theorem QueueWorld.fourBlocks_initial : QueueWorld.fourBlocks.Initial 2 6 6 :=
  ⟨SqWorld.fourBlocks_initial.ring, CqWorld.minDepth_initial.geometry, rfl, fun _ _ => rfl,
    rfl, rfl, rfl, rfl, rfl, rfl⟩

def CdmaUJfcCqe.lastBlock : CdmaUJfcCqe := { CdmaUJfcCqe.success with entryIdx := 65535 }

theorem cdmaUPollJfc_routes_fourBlocks :
    ∃ final, run QueueWorld.step .fourBlocks
        [.post [writeOne, writeOne], .produce .lastBlock (some 0), .call 1 fun _ => .blank, .turn,
          .turn] = some final ∧
      final.reported.length = 1 ∧
      ∀ record index, (record, some index) ∈ final.reported →
        ∃ request, final.posted[index]? = some request ∧ record.userCtx = request.wr.userCtx := by
  have runs : (run QueueWorld.step .fourBlocks
      [.post [writeOne, writeOne], .produce .lastBlock (some 0), .call 1 fun _ => .blank, .turn,
        .turn]).isSome := by decide
  obtain ⟨final, ran⟩ := Option.isSome_iff_exists.mp runs
  refine ⟨final, ran, ?_,
    (cdmaUPollJfc_routes QueueWorld.fourBlocks_initial (by decide) ran).2.2⟩
  cases ran
  rfl

end Libcdma
