import ECE385.UsbHost.Transfer

namespace ECE385.UsbHost.Frames

open MAX3421E Records Transfer
open Imperative.Program

/-- The drivers differ in nothing but what the endpoint tables hold. -/
def Agrees (d d' : Driver) : Prop := ∃ e h, d' = { d with dev0ep := e, hidEp := h }

theorem Agrees.refl (d : Driver) : Agrees d d := ⟨_, _, rfl⟩

section Agrees

variable {d d' d'' : Driver}

theorem Agrees.of_eq (h : d' = d) : Agrees d d' := h ▸ .refl d

theorem Agrees.trans (h : Agrees d d') (h' : Agrees d' d'') : Agrees d d'' := by
  obtain ⟨e, g, rfl⟩ := h
  obtain ⟨e', g', rfl⟩ := h'
  exact ⟨e', g', rfl⟩

theorem Agrees.setEp (d : Driver) (t : EpTable) (i : Nat) (r : EpRecord) : Agrees d (d.setEp t i r) := by
  cases t with
  | dev0ep => exact ⟨_, _, rfl⟩
  | hidEp => exact ⟨_, _, rfl⟩

theorem Agrees.state (h : Agrees d d') : d'.usbTaskState = d.usbTaskState := by
  obtain ⟨e, g, rfl⟩ := h
  rfl

theorem Agrees.has (h : Agrees d d') {addr ep : Byte} {t : EpTable} (hep : d.Has addr ep t) : d'.Has addr ep t := by
  obtain ⟨e, g, rfl⟩ := h
  exact ⟨hep.device, hep.pointer, hep.index⟩

end Agrees

section Packets

variable {σ : Type} (c : Chip σ) (fuel : Nat)

theorem wp_chip {F : Stop Fault → Prop} {α : Type} {f : σ → α × σ} {Q : α → System σ → Prop} {chip : σ} {d : Driver}
    (h : ∀ a chip, Q a ⟨chip, d⟩) : wp F (onChip f) Q ⟨chip, d⟩ := h _ _

theorem wp_assign {F : Stop Fault → Prop} {f : Driver → Driver} {Q : Unit → System σ → Prop} {chip : σ} {d : Driver}
    (h : ∀ d', d' = f d → Q () ⟨chip, d'⟩) : wp F (onDriver f) Q ⟨chip, d⟩ := h _ rfl

theorem wp_setEp {F : Stop Fault → Prop} {addr ep : Byte} {tbl : EpTable} {f : EpRecord → EpRecord} {Q : Unit → System σ → Prop}
    {chip : σ} {d : Driver} (hep : d.Has addr ep tbl) (h : ∀ r, Q () ⟨chip, d.setEp tbl ep.toNat r⟩) :
    wp F (modifyEndpoint addr ep f) Q ⟨chip, d⟩ := by
  rw [wp_modifyEndpoint hep]
  exact h _

theorem wp_touch {F : Stop Fault → Prop} {addr ep : Byte} {tbl : EpTable} {f : EpRecord → EpRecord} {Q : Unit → System σ → Prop}
    {chip : σ} {d : Driver} (hep : d.Has addr ep tbl) (h : ∀ d', Agrees d d' → Q () ⟨chip, d'⟩) :
    wp F (modifyEndpoint addr ep f) Q ⟨chip, d⟩ :=
  wp_setEp hep fun _ => h _ (.setEp _ _ _ _)

theorem waitDone_driver (timeout : DWord) (s : System σ) :
    wp Stop.Short (waitDone c fuel timeout) (fun _ t => t.driver = s.driver) s := by
  refine wp_loop (fun _ t => t.driver = s.driver) (fun _ t ht => ?_) fuel trivial rfl
  rw [wp_bind, wp_milliseconds]
  refine wp_ite (fun _ => ?_) fun _ => ht
  rw [wp_bind, wp_regRd]
  exact wp_ite (fun _ => ht) fun _ => ht

theorem launch_driver (timeout : DWord) (token ep : Byte) (counts : Byte × Byte) (s : System σ) :
    wp Stop.Short (launch c fuel timeout token ep counts) (fun _ t => t.driver = s.driver) s := by
  rw [launch, wp_bind, wp_regWr, wp_bind]
  refine wp_mono (waitDone_driver c fuel timeout _) fun done t ht => wp_ite (fun _ => ?_) fun _ => ht
  rw [wp_bind, wp_regRd]
  refine wp_ite (fun _ => wp_ite (fun _ => ht) fun _ => ht) fun _ => ?_
  exact wp_ite (fun _ => wp_ite (fun _ => ht) fun _ => ht) fun _ => ht

theorem xferDispatchPkt_driver (token ep : Byte) (s : System σ) :
    wp Stop.Short (xferDispatchPkt c fuel token ep) (fun _ t => t.driver = s.driver) s := by
  rw [xferDispatchPkt, wp_bind, wp_milliseconds]
  refine wp_loop (fun _ t => t.driver = s.driver) (fun counts t ht => ?_) fuel trivial rfl
  refine wp_mono (launch_driver c fuel _ token ep counts t) fun r u hu => ?_
  cases r with
  | inl counts' => exact hu.trans ht
  | inr rcode => exact hu.trans ht

theorem receive_agrees {d : Driver} {addr ep : Byte} {tbl : EpTable} (hep : d.Has addr ep tbl) (nbytes : Word)
    (room : Nat) (maxpktsize : Byte) (b : Word × List Byte) (s : System σ) (hs : Agrees d s.driver) :
    wp Stop.Short (receive c fuel addr ep nbytes room maxpktsize b) (fun _ t => Agrees d t.driver) s := by
  rw [receive, wp_bind]
  refine wp_mono (xferDispatchPkt_driver c fuel tokIN ep s) fun rcode t ht => ?_
  obtain ⟨chip, d'⟩ := t
  have hagrees : Agrees d d' := hs.trans (.of_eq ht)
  refine wp_ite (fun _ => hagrees) fun _ => ?_
  rw [wp_bind]
  refine wp_chip fun hirq chip => wp_ite (fun _ => hagrees) fun _ => ?_
  rw [wp_bind]
  refine wp_chip fun pktsize chip => ?_
  rw [wp_bind]
  refine wp_doIf (fun _ => trivial) fun _ => ?_
  rw [wp_bind]
  refine wp_chip fun data chip => ?_
  rw [wp_bind]
  refine wp_chip fun _ chip => wp_ite (fun _ => ?_) fun _ => hagrees
  rw [wp_bind]
  refine wp_chip fun hrsl chip => ?_
  rw [wp_bind]
  exact wp_touch (hagrees.has hep) fun _ hset => hagrees.trans hset

/-- A request without data only moves packets; its result is that of one of them. -/
theorem xferCtrlReq_driver {F : Stop Fault → Prop} {P : Byte → Prop} (addr ep : Byte)
    (hdispatch : ∀ token t, wp F (xferDispatchPkt c fuel token ep) (fun rcode u => P rcode ∧ u.driver = t.driver) t)
    (bmReqType bRequest wValLo wValHi : Byte) (wInd nbytes : Word) (s : System σ) :
    wp F (xferCtrlReq c fuel addr ep bmReqType bRequest wValLo wValHi wInd nbytes none)
      (fun r t => P r.1 ∧ t.driver = s.driver) s := by
  rw [xferCtrlReq, wp_bind, wp_regWr, wp_bind, wp_bytesWr, wp_bind]
  refine wp_mono (hdispatch tokSETUP _) fun rcode t ht => wp_ite (fun _ => ht) fun _ => ?_
  rw [wp_bind, xferCtrlND]
  refine wp_ite (fun _ => ?_) fun _ => ?_
  · exact wp_mono (hdispatch tokOUTHS t) fun _ u hu => ⟨hu.1, hu.2.trans ht.2⟩
  · exact wp_mono (hdispatch tokINHS t) fun _ u hu => ⟨hu.1, hu.2.trans ht.2⟩

variable {addr ep : Byte} {tbl : EpTable} {s : System σ} (hep : s.driver.Has addr ep tbl)

include hep

theorem xferInTransfer_agrees (nbytes : Word) (room : Nat) (maxpktsize : Byte) :
    wp Stop.Short (xferInTransfer c fuel addr ep nbytes room maxpktsize) (fun _ t => Agrees s.driver t.driver) s := by
  rw [xferInTransfer, wp_bind, wp_endpoint hep, wp_bind, wp_regWr]
  refine wp_loop (fun _ t => Agrees s.driver t.driver) (fun b t ht => ?_) fuel trivial (.refl _)
  refine wp_mono (receive_agrees c fuel hep nbytes room maxpktsize b t ht) fun r u hu => ?_
  cases r with
  | inl b' => exact hu
  | inr r => exact hu

theorem xferCtrlData_agrees (nbytes : Word) (room : Nat) (direction : Bool) :
    wp Stop.Short (xferCtrlData c fuel addr ep nbytes room direction) (fun _ t => Agrees s.driver t.driver) s := by
  rw [xferCtrlData]
  refine wp_ite (fun _ => ?_) fun _ => .refl _
  obtain ⟨chip, d⟩ := s
  rw [wp_bind]
  refine wp_touch hep fun d' hset => ?_
  rw [wp_bind, wp_endpoint (hset.has hep), wp_bind]
  refine wp_mono (xferInTransfer_agrees c fuel (hset.has hep) nbytes room _) fun r t ht => ?_
  have hagrees := hset.trans ht
  refine wp_ite (fun _ => hagrees) fun _ => ?_
  rw [wp_bind]
  exact wp_mono (xferDispatchPkt_driver c fuel tokOUTHS ep t) fun _ u hu => hagrees.trans (.of_eq hu)

theorem xferCtrlReq_agrees (bmReqType bRequest wValLo wValHi : Byte) (wInd nbytes : Word) (dataptr : Option Nat) :
    wp Stop.Short (xferCtrlReq c fuel addr ep bmReqType bRequest wValLo wValHi wInd nbytes dataptr)
      (fun _ t => Agrees s.driver t.driver) s := by
  rw [xferCtrlReq, wp_bind, wp_regWr, wp_bind, wp_bytesWr, wp_bind]
  refine wp_mono (xferDispatchPkt_driver c fuel tokSETUP ep _) fun rcode t ht => ?_
  have hagrees : Agrees s.driver t.driver := .of_eq ht
  refine wp_ite (fun _ => hagrees) fun _ => ?_
  cases dataptr with
  | some room =>
      exact wp_mono (xferCtrlData_agrees c fuel (hagrees.has hep) nbytes room _) fun _ u hu => hagrees.trans hu
  | none =>
      rw [wp_bind, xferCtrlND]
      refine wp_ite (fun _ => ?_) fun _ => ?_
      · exact wp_mono (xferDispatchPkt_driver c fuel tokOUTHS ep t) fun _ u hu => hagrees.trans (.of_eq hu)
      · exact wp_mono (xferDispatchPkt_driver c fuel tokINHS ep t) fun _ u hu => hagrees.trans (.of_eq hu)

end Packets

end ECE385.UsbHost.Frames
