/-
What contexts and segments acquire and give back.

A constructor that fails leaves the ledger as it was; one that succeeds leaves the
entries of its object on top, and deleting the object takes exactly these away.
-/

import Libcdma.Model.Session

namespace Libcdma

open Ledger

def ProcessResource.Valid : ProcessResource → Prop
  | .jfcPage page => page ≠ 0
  | _ => True

def ProcessResource.grants : Grants ProcessResource := ⟨ProcessResource.Valid, fun _ _ => True⟩

instance : DecidablePred ProcessResource.grants.valid := fun resource => by
  change Decidable resource.Valid
  cases resource <;> unfold ProcessResource.Valid <;> infer_instance

instance : DecidableRel ProcessResource.grants.apart := fun _ _ =>
  inferInstanceAs (Decidable True)

namespace HeldContext

def pageEntries (held : HeldContext) : List (Entry ProcessResource) :=
  (held.db.addr.map fun addr =>
    ⟨.jfcPage addr, [.kernelContext held.address held.dev.fd]⟩).toList

def asyncEntries (held : HeldContext) : List (Entry ProcessResource) :=
  if 0 ≤ held.asyncFd then
    [⟨.asyncFd held.asyncFd, [.kernelContext held.address held.dev.fd]⟩]
  else []

/-- What is acquired before the kernel knows of the context. -/
def ownEntries (held : HeldContext) : List (Entry ProcessResource) :=
  [⟨.tid held.tid, []⟩, ⟨.pageMutex held.address, [.context held.address]⟩,
    ⟨.context held.address, []⟩]

def kernelEntries (held : HeldContext) : List (Entry ProcessResource) :=
  held.asyncEntries ++
    ⟨.kernelContext held.address held.dev.fd, [.context held.address]⟩ :: held.ownEntries

def entries (held : HeldContext) : List (Entry ProcessResource) :=
  held.pageEntries ++ held.kernelEntries

structure Ready (held : HeldContext) : Prop where
  dbType : held.dbType = .jfcPage
  mapped : ∃ page, held.db.addr = some page ∧ page ≠ 0

end HeldContext

namespace HeldSeg

def importEntries (seg : HeldSeg) : List (Entry ProcessResource) := [⟨.seg seg.address, []⟩]

def entries (held : HeldContext) (seg : HeldSeg) : List (Entry ProcessResource) :=
  ⟨.kernelSeg held.dev.fd seg.handle,
    [.kernelContext held.address held.dev.fd,
      .grant seg.address seg.seg.tid seg.seg.sva seg.seg.len]⟩ ::
    ⟨.grant seg.address seg.seg.tid seg.seg.sva seg.seg.len,
      [.seg seg.address, .tid seg.seg.tid]⟩ :: seg.importEntries

end HeldSeg

namespace Process

variable {trusting : Prop} {ledger : List (Entry ProcessResource)}

theorem cdmaCreateKernelContext_meets (env : ContextEnv) {held : HeldContext} :
    Logged.Meets ProcessResource.grants True (held.ownEntries ++ ledger)
      (cdmaCreateKernelContext env held) fun result after =>
      (result = none ∧ after = held.ownEntries ++ ledger) ∨
      ∃ made, result = some made ∧ made.dbType = .jfcPage ∧ made.address = held.address ∧
        made.dev = held.dev ∧ made.tid = held.tid ∧
        made.uCtx.pageSize = env.pageSize.value ∧ made.uCtx.page = held.uCtx.page ∧
        after = made.kernelEntries ++ ledger := by
  unfold cdmaCreateKernelContext
  cases env.kernel with
  | none => exact .pure (.inl ⟨rfl, rfl⟩)
  | some info =>
      refine .granting (fun _ ref refers => ?_) fun _ => ?_
      · rw [List.mem_singleton.mp refers]
        simp [HeldContext.ownEntries]
      · by_cases opened : 0 ≤ info.asyncFd
        · rw [if_pos opened]
          refine .granting (fun _ ref refers => ?_) fun _ => .pure (.inr ⟨_, rfl, rfl, rfl, rfl, rfl,
            rfl, rfl, ?_⟩)
          · rw [List.mem_singleton.mp refers]
            exact List.mem_cons_self
          · simp [HeldContext.kernelEntries, HeldContext.asyncEntries, cdmaUInitContext, opened,
              HeldContext.ownEntries]
        · rw [if_neg opened]
          refine .pure (.inr ⟨_, rfl, rfl, rfl, rfl, rfl, rfl, rfl, ?_⟩)
          simp [HeldContext.kernelEntries, HeldContext.asyncEntries, cdmaUInitContext, opened,
            HeldContext.ownEntries]

theorem cdmaDeleteKernelContext_meets (held : HeldContext) :
    Logged.Meets ProcessResource.grants trusting (held.kernelEntries ++ ledger)
      (cdmaDeleteKernelContext held) fun result after =>
      (result.address = held.address ∧ result.tid = held.tid) ∧
        after = held.ownEntries ++ ledger := by
  unfold cdmaDeleteKernelContext HeldContext.kernelEntries HeldContext.asyncEntries
  by_cases opened : 0 ≤ held.asyncFd
  · rw [if_pos opened, if_pos opened]
    exact .leaving .release_top fun _ => .leaving .release_top fun _ => .pure ⟨⟨rfl, rfl⟩, rfl⟩
  · rw [if_neg opened, if_neg opened]
    exact .leaving .release_top fun _ => .pure ⟨⟨rfl, rfl⟩, rfl⟩

theorem freeTid_meets (held : HeldContext) :
    Logged.Meets ProcessResource.grants trusting (held.ownEntries ++ ledger) (freeTid held)
      fun _ after => after = ledger :=
  .leaving .release_top fun _ => .leaving .release_top fun _ => .release_top

theorem delKernelCtx_meets (held : HeldContext) :
    Logged.Meets ProcessResource.grants trusting (held.kernelEntries ++ ledger)
      (delKernelCtx held) fun _ after => after = ledger := by
  refine .bind (cdmaDeleteKernelContext_meets held) ?_
  rintro after middle ⟨⟨address, tid⟩, rfl⟩
  have own : held.ownEntries = after.ownEntries := by
    unfold HeldContext.ownEntries
    rw [address, tid]
  rw [own]
  exact freeTid_meets after

theorem cdmaUAllocDb_meets (page : Option Nat) {held : HeldContext}
    (type : held.dbType = .jfcPage) :
    Logged.Meets ProcessResource.grants True (held.kernelEntries ++ ledger)
      (cdmaUAllocDb page held) fun result after =>
      (result = none ∧ after = held.kernelEntries ++ ledger) ∨
      ∃ made, result = some made ∧ made.Ready ∧ made.address = held.address ∧
        made.dev = held.dev ∧ made.uCtx = held.uCtx ∧ after = made.entries ++ ledger := by
  unfold cdmaUAllocDb
  cases page with
  | none => exact .pure (.inl ⟨rfl, rfl⟩)
  | some page =>
      have offset : cdmaGetDsqeDbOffset held.uCtx.pageSize held.dbType held.db.id = 0 := by
        rw [type]
        rfl
      refine .granting (fun _ ref refers => ?_) fun fresh => ?_
      · rw [List.mem_singleton.mp refers]
        simp [HeldContext.kernelEntries]
      · have notNull : page ≠ 0 := fresh.2.1
        dsimp only
        rw [offset]
        exact .pure (.inr ⟨_, rfl, ⟨type, page, rfl, notNull⟩, rfl, rfl, rfl, rfl⟩)

theorem cdmaUFreeDb_meets {held : HeldContext} (ready : held.Ready) :
    Logged.Meets ProcessResource.grants trusting (held.entries ++ ledger) (cdmaUFreeDb held)
      fun result after => (∃ db, result = { held with db := db }) ∧
        after = held.kernelEntries ++ ledger := by
  obtain ⟨page, mapped, notNull⟩ := ready.mapped
  have offset : cdmaGetDsqeDbOffset held.uCtx.pageSize held.dbType held.db.id = 0 := by
    rw [ready.dbType]
    rfl
  unfold cdmaUFreeDb HeldContext.entries HeldContext.pageEntries
  rw [mapped]
  dsimp only
  rw [if_neg notNull, offset]
  exact .leaving .release_top fun _ => .pure ⟨⟨_, rfl⟩, rfl⟩

theorem cdmaCreateContext_meets (env : ContextEnv) (dev : DmaDevice) :
    Logged.Meets ProcessResource.grants True ledger (cdmaCreateContext env dev) fun result after =>
      (result = none ∧ after = ledger) ∨
      ∃ made, result = some made ∧ made.Ready ∧ made.uCtx.pageSize = env.pageSize.value ∧
        made.uCtx.page = 0 ∧ after = made.entries ++ ledger := by
  unfold cdmaCreateContext
  cases env.calloc with
  | none => exact .pure (.inl ⟨rfl, rfl⟩)
  | some address =>
      refine .granting (fun _ _ member => absurd member List.not_mem_nil) fun _ => ?_
      cases env.mutex with
      | false => exact .leaving .release_top fun _ => .pure (.inl ⟨rfl, rfl⟩)
      | true =>
          refine .granting (fun _ ref refers => ?_) fun _ => ?_
          · rw [List.mem_singleton.mp refers]
            exact List.mem_cons_self
          cases env.tid with
          | none =>
              exact .leaving (.leaving .release_top fun _ => .release_top) fun _ =>
                .pure (.inl ⟨rfl, rfl⟩)
          | some tid =>
              refine .granting (fun _ _ member => absurd member List.not_mem_nil) fun _ => ?_
              have kernel : Logged.Meets ProcessResource.grants True
                  (({ HeldContext.zeroed address dev with tid := tid }).ownEntries ++ ledger) _ _ :=
                cdmaCreateKernelContext_meets env
              refine .bind kernel fun result after created => ?_
              rcases created with ⟨rfl, rfl⟩ | ⟨made, rfl, type, _, _, _, size, page, rfl⟩
              · exact .leaving (freeTid_meets _) fun _ => .pure (.inl ⟨rfl, rfl⟩)
              · refine .bind (cdmaUAllocDb_meets env.page type) fun result after allocated => ?_
                rcases allocated with ⟨rfl, rfl⟩ | ⟨held, rfl, ready, _, _, same, rfl⟩
                · exact .leaving (delKernelCtx_meets made) fun _ => .pure (.inl ⟨rfl, rfl⟩)
                · refine .pure (.inr ⟨held, rfl, ready, ?_, ?_, rfl⟩)
                  · rw [same, size]
                  · rw [same, page]
                    rfl

theorem cdmaDeleteContext_meets {held : HeldContext} (ready : held.Ready) :
    Logged.Meets ProcessResource.grants trusting (held.entries ++ ledger)
      (cdmaDeleteContext held) fun _ after => after = ledger := by
  have there : ProcessResource.context held.address ∈ live (held.entries ++ ledger) := by
    simp [HeldContext.entries, HeldContext.kernelEntries, HeldContext.ownEntries]
  unfold cdmaDeleteContext
  refine .leaving (.using there) fun _ => .bind (cdmaUFreeDb_meets ready) ?_
  rintro _ _ ⟨⟨db, rfl⟩, rfl⟩
  exact delKernelCtx_meets { held with db := db }

theorem dmaCreateContext_meets (env : ContextEnv) (dev : Option DmaDevice) :
    Logged.Meets ProcessResource.grants True ledger (dmaCreateContext env dev) fun result after =>
      (result = none ∧ after = ledger) ∨
      ∃ made, result = some made ∧ made.Ready ∧ made.uCtx.pageSize = env.pageSize.value ∧
        made.uCtx.page = 0 ∧ after = made.entries ++ ledger := by
  cases dev with
  | none => exact .pure (.inl ⟨rfl, rfl⟩)
  | some dev => exact cdmaCreateContext_meets env dev

/-! ### Segments -/

theorem cdmaRegisterKernelSeg_meets (handle : Option UInt64) {held : HeldContext} {address : Nat}
    {seg : DmaSeg} (kernel : .kernelContext held.address held.dev.fd ∈ live ledger)
    (granted : .grant address seg.tid seg.sva seg.len ∈ live ledger) :
    Logged.Meets ProcessResource.grants True ledger
      (cdmaRegisterKernelSeg handle held address seg) fun result after =>
      (result = none ∧ after = ledger) ∨
      ∃ made, result = some made ∧ after = ⟨.kernelSeg held.dev.fd made,
        [.kernelContext held.address held.dev.fd, .grant address seg.tid seg.sva seg.len]⟩ ::
          ledger := by
  unfold cdmaRegisterKernelSeg
  cases handle with
  | none => exact .pure (.inl ⟨rfl, rfl⟩)
  | some handle =>
      refine .granting (fun _ ref refers => ?_) fun _ => .pure (.inr ⟨_, rfl, rfl⟩)
      rcases List.mem_cons.mp refers with rfl | other
      · exact kernel
      · rw [List.mem_singleton.mp other]
        exact granted

theorem cdmaRegisterSeg_meets (env : SegEnv) {held : HeldContext} (cfg : DmaSegCfg)
    (context : .context held.address ∈ live ledger) (tid : .tid held.tid ∈ live ledger)
    (kernel : .kernelContext held.address held.dev.fd ∈ live ledger) :
    Logged.Meets ProcessResource.grants True ledger (cdmaRegisterSeg env held cfg)
      fun result after =>
      (result = none ∧ after = ledger) ∨
      ∃ seg, result = some seg ∧ seg.seg.tid = held.tid ∧ after = seg.entries held ++ ledger := by
  unfold cdmaRegisterSeg
  cases env.calloc with
  | none => exact .pure (.inl ⟨rfl, rfl⟩)
  | some address =>
      refine .granting (fun _ _ member => absurd member List.not_mem_nil) fun _ => ?_
      refine .leaving (.using (List.mem_cons_of_mem _ context)) fun _ => ?_
      cases env.granted with
      | false => exact .leaving .release_top fun _ => .pure (.inl ⟨rfl, rfl⟩)
      | true =>
          refine .granting (fun _ ref refers => ?_) fun _ => ?_
          · rcases List.mem_cons.mp refers with rfl | owner
            · exact List.mem_cons_self
            · rw [List.mem_singleton.mp owner]
              exact List.mem_cons_of_mem _ tid
          refine .bind (cdmaRegisterKernelSeg_meets env.handle
            (List.mem_cons_of_mem _ (List.mem_cons_of_mem _ kernel)) List.mem_cons_self)
            fun result after registered => ?_
          rcases registered with ⟨rfl, rfl⟩ | ⟨handle, rfl, rfl⟩
          · exact .leaving .release_top fun _ => .leaving .release_top fun _ =>
              .pure (.inl ⟨rfl, rfl⟩)
          · exact .pure (.inr ⟨_, rfl, rfl, rfl⟩)

theorem dmaRegisterSeg_meets (env : SegEnv) {held : HeldContext} (cfg : Option DmaSegCfg)
    (context : .context held.address ∈ live ledger) (tid : .tid held.tid ∈ live ledger)
    (kernel : .kernelContext held.address held.dev.fd ∈ live ledger) :
    Logged.Meets ProcessResource.grants True ledger (dmaRegisterSeg env (some held) cfg)
      fun result after =>
      (result = none ∧ after = ledger) ∨
      ∃ seg, result = some seg ∧ seg.seg.tid = held.tid ∧ after = seg.entries held ++ ledger := by
  unfold dmaRegisterSeg
  cases cfg with
  | none => exact .pure (.inl ⟨rfl, rfl⟩)
  | some cfg =>
      dsimp only
      split
      · exact .pure (.inl ⟨rfl, rfl⟩)
      · exact cdmaRegisterSeg_meets env cfg context tid kernel

theorem dmaUnregisterSeg_meets {held : HeldContext} (seg : HeldSeg)
    (context : .context held.address ∈ live ledger) :
    Logged.Meets ProcessResource.grants trusting (seg.entries held ++ ledger)
      (dmaUnregisterSeg (some held) (some seg)) fun _ after => after = ledger := by
  have there : ∀ resource, resource ∈ live (seg.entries held) →
      resource ∈ live (seg.entries held ++ ledger) := fun resource member => by
    rw [live_append]
    exact List.mem_append_left _ member
  have context : .context held.address ∈ live (seg.entries held ++ ledger) := by
    rw [live_append]
    exact List.mem_append_right _ context
  have object : .seg seg.address ∈ live (seg.entries held ++ ledger) :=
    there _ (by simp [HeldSeg.entries, HeldSeg.importEntries])
  have kernel : Logged.Meets ProcessResource.grants trusting (seg.entries held ++ ledger)
      (cdmaUnregisterKernelSeg held seg) fun _ after =>
        after = ⟨.grant seg.address seg.seg.tid seg.seg.sva seg.seg.len,
          [.seg seg.address, .tid seg.seg.tid]⟩ :: seg.importEntries ++ ledger :=
    .leaving (.using context) fun _ => .leaving (.using object) fun _ => .release_top
  exact .leaving kernel fun _ => .leaving .release_top fun _ => .release_top

theorem dmaImportSeg_meets (calloc : Option Nat) (cfg : Option DmaSegCfg) :
    Logged.Meets ProcessResource.grants True ledger (dmaImportSeg calloc cfg) fun result after =>
      (result = none ∧ after = ledger) ∨
      ∃ seg, result = some seg ∧ after = seg.importEntries ++ ledger := by
  unfold dmaImportSeg
  cases cfg with
  | none => exact .pure (.inl ⟨rfl, rfl⟩)
  | some cfg =>
      dsimp only
      split
      · exact .pure (.inl ⟨rfl, rfl⟩)
      · unfold cdmaImportSeg
        cases calloc with
        | none => exact .pure (.inl ⟨rfl, rfl⟩)
        | some address =>
            exact .granting (fun _ _ member => absurd member List.not_mem_nil) fun _ =>
              .pure (.inr ⟨_, rfl, rfl⟩)

theorem dmaUnimportSeg_meets (seg : HeldSeg) :
    Logged.Meets ProcessResource.grants trusting (seg.importEntries ++ ledger)
      (dmaUnimportSeg (some seg)) fun _ after => after = ledger :=
  .release_top

end Process

end Libcdma
