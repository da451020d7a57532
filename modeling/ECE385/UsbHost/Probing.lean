import ECE385.UsbHost.Frames
import ECE385.UsbHost.Hid

namespace ECE385.UsbHost.Probing

open MAX3421E Records Transfer Hid Frames
open Imperative.Program

/-- The table holds address 0 and the devices 1 to `m`. -/
structure Enumerated (d : Driver) (m : Nat) : Prop where
  bound : m < usbNumDevices
  root : (d.devtable 0).epinfo = some .dev0ep
  device : ∀ i, (d.devtable i).epinfo = none ↔ m < i
  classes : ∀ i, (d.devtable i).devclass.toNat ≤ 2

/-- What a probe does not change of a driver with `m` devices. -/
structure Probed (d : Driver) (m : Nat) (d' : Driver) : Prop where
  table : Enumerated d' m
  state : d'.usbTaskState = d.usbTaskState
  address : d'.tmpAddr = d.tmpAddr

structure Taken (d : Driver) (addr devclass : Byte) : Prop where
  address : d.hidAddr = addr
  pointer : (d.devtable addr.toNat).epinfo = some .hidEp
  entered : (d.devtable addr.toNat).devclass = devclass

section Driver

variable {d d' d'' : Driver} {m : Nat} {addr devclass : Byte}

theorem Enumerated.has (h : Enumerated d m) (haddr : addr.toNat ≤ m) : ∃ t, d.Has addr 0 t := by
  have hpointer : (d.devtable addr.toNat).epinfo ≠ none := fun hnone =>
    absurd ((h.device addr.toNat).mp hnone) (Nat.not_lt_of_le haddr)
  obtain ⟨t, ht⟩ := Option.ne_none_iff_exists'.mp hpointer
  refine ⟨t, Nat.le_trans haddr (Nat.le_of_lt h.bound), ht, ?_⟩
  cases t <;> decide

theorem Enumerated.of_eq (h : Enumerated d m) (hd : d'.devtable = d.devtable) : Enumerated d' m := by
  refine ⟨h.bound, ?_, fun i => ?_, fun i => ?_⟩
  · rw [hd]
    exact h.root
  · rw [hd]
    exact h.device i
  · rw [hd]
    exact h.classes i

theorem Enumerated.agrees (h : Enumerated d m) (hd : Agrees d d') : Enumerated d' m := by
  obtain ⟨e, g, rfl⟩ := hd
  exact h.of_eq rfl

theorem Probed.agrees (h : Probed d m d') (hd : Agrees d' d'') : Probed d m d'' := by
  obtain ⟨e, g, rfl⟩ := hd
  exact ⟨h.table.agrees ⟨e, g, rfl⟩, h.state, h.address⟩

theorem Taken.agrees (h : Taken d addr devclass) (hd : Agrees d d') : Taken d' addr devclass := by
  obtain ⟨e, g, rfl⟩ := hd
  exact ⟨h.address, h.pointer, h.entered⟩

theorem Taken.has (h : Taken d addr devclass) (table : Enumerated d m) : d.Has addr 1 .hidEp := by
  refine ⟨?_, h.pointer, by decide⟩
  have hle : addr.toNat ≤ m := Nat.le_of_not_lt fun hlt => by
    have hnone := (table.device addr.toNat).mpr hlt
    rw [h.pointer] at hnone
    exact absurd hnone (Option.some_ne_none _)
  exact Nat.le_trans hle (Nat.le_of_lt table.bound)

theorem Probed.withBigbuf (h : Probed d m d') (buf : Fin 256 → Byte) : Probed d m { d' with bigbuf := buf } :=
  ⟨h.table.of_eq rfl, h.state, h.address⟩

/-- Another record at an address, with which the devices are those up to `m'`. -/
theorem Enumerated.update {m' i : Nat} {r : DevRecord} (h : Enumerated d m) (hbound : m' < usbNumDevices)
    (hother : ∀ j, j ≠ i → (m < j ↔ m' < j)) (hpos : 0 < i) (hpointer : r.epinfo = none ↔ m' < i)
    (hclass : r.devclass.toNat ≤ 2) : Enumerated { d with devtable := Function.update d.devtable i r } m' := by
  refine ⟨hbound, ?_, fun j => ?_, fun j => ?_⟩
  · simp only [Function.update_of_ne (Nat.ne_of_lt hpos)]
    exact h.root
  · rcases eq_or_ne j i with rfl | hne
    · simp only [Function.update_self]
      exact hpointer
    · simp only [Function.update_of_ne hne]
      exact (h.device j).trans (hother j hne)
  · rcases eq_or_ne j i with rfl | hne
    · simp only [Function.update_self]
      exact hclass
    · simp only [Function.update_of_ne hne]
      exact h.classes j

theorem Probed.withClass (h : Probed d m d') (hpos : 0 < addr.toNat) (hclass : devclass.toNat ≤ 2) :
    Probed d m { d' with
      devtable := Function.update d'.devtable addr.toNat { d'.devtable addr.toNat with devclass := devclass } } :=
  ⟨h.table.update h.table.bound (fun _ _ => Iff.rfl) hpos (h.table.device _) hclass, h.state, h.address⟩

theorem Probed.withPointer (h : Probed d m d') (hpos : 0 < addr.toNat) (haddr : addr.toNat ≤ m) (t : EpTable) :
    Probed d m { d' with
      devtable := Function.update d'.devtable addr.toNat { d'.devtable addr.toNat with epinfo := some t } } := by
  refine ⟨h.table.update h.table.bound (fun _ _ => Iff.rfl) hpos ?_ (h.table.classes _), h.state, h.address⟩
  exact ⟨fun hnone => absurd hnone (Option.some_ne_none _), fun hlt => absurd hlt (Nat.not_lt_of_le haddr)⟩

end Driver

section Probe

variable {σ : Type} (c : Chip σ) (fuel : Nat) {d : Driver} {m : Nat} {addr devclass : Byte}

theorem getConfDescr_probed (haddr : addr.toNat ≤ m) (nbytes : Word) {s : System σ} (hs : Probed d m s.driver) :
    wp Stop.Short (getConfDescr c fuel addr nbytes) (fun _ t => Probed d m t.driver) s := by
  obtain ⟨tbl, hep⟩ := hs.table.has haddr
  rw [getConfDescr, wp_bind]
  refine wp_mono (xferCtrlReq_agrees c fuel hep _ _ _ _ _ _ _) fun r t ht => ?_
  exact (hs.agrees ht).withBigbuf _

theorem search_any {F : Stop Fault → Prop} (totalLength : Nat) (kind : Byte) (pos : Nat) {s : System σ}
    {Q : Option Nat → System σ → Prop} (hfuel : F .fuel) (h : ∀ r, Q r s) :
    wp F (search fuel totalLength kind pos) Q s := by
  rw [search, wp_bind, wp_get]
  split
  · exact h _
  · exact hfuel

/-- What HID_init and the interface descriptor at `pos` leave behind. -/
structure Readied (d d' : Driver) (pos : Nat) : Prop where
  bigbuf : d'.bigbuf = d.bigbuf
  interface : pos + 2 < 256 → d'.hidInterface = d.byteAt (pos + 2)
  sndToggle : (d'.hidEp 1).sndToggle = bmSNDTOG0
  rcvToggle : (d'.hidEp 1).rcvToggle = bmRCVTOG0

theorem takeDevice_taken {F : Stop Fault → Prop} (hpos : 0 < addr.toNat) (haddr : addr.toNat ≤ m) (hclass : devclass.toNat ≤ 2)
    (pos : Nat) {s : System σ} (hs : Probed d m s.driver) :
    wp F (takeDevice addr devclass pos)
      (fun _ t => Probed d m t.driver ∧ Taken t.driver addr devclass ∧ Readied s.driver t.driver pos) s := by
  obtain ⟨chip, d₀⟩ := s
  rw [takeDevice, wp_bind]
  refine wp_assign fun d₁ h₁ => ?_
  have hd₁ : Probed d m d₁ := h₁ ▸ hs.withClass hpos hclass
  have hentered : (d₁.devtable addr.toNat).devclass = devclass := by
    rw [h₁]
    simp only [Function.update_self]
  obtain ⟨tbl, hep⟩ := hd₁.table.has haddr
  rw [wp_bind, wp_endpoint hep, wp_bind, hidInit]
  refine wp_assign fun d₂ h₂ => ?_
  have hagrees : Agrees d₁ d₂ := ⟨_, _, h₂⟩
  rw [wp_bind]
  refine wp_assign fun d₃ h₃ => ?_
  have hd₃ : Probed d m d₃ := h₃ ▸ (hd₁.agrees hagrees).withPointer hpos haddr .hidEp
  have hrecord : d₃.devtable addr.toNat = ⟨some .hidEp, devclass⟩ := by
    obtain ⟨e, g, rfl⟩ := hagrees
    rw [h₃, ← hentered]
    simp only [Function.update_self]
  have hep' : d₃.Has addr 0 .hidEp :=
    ⟨Nat.le_trans haddr (Nat.le_of_lt hs.table.bound), congrArg DevRecord.epinfo hrecord, by decide⟩
  have hep₁ : d₃.hidEp 1 = { d₁.hidEp 1 with sndToggle := bmSNDTOG0, rcvToggle := bmRCVTOG0 } := by
    rw [h₃, h₂]
    exact Function.update_self (1 : Fin 2) _ d₁.hidEp
  have hbigbuf : d₃.bigbuf = d₀.bigbuf := by
    rw [h₃, h₂, h₁]
  rw [wp_bind]
  refine wp_setEp hep' fun r => ?_
  rw [bigbufAt, wp_bind, wp_bind, wp_get, wp_pure, wp_onDriver]
  have hd₄ := hd₃.agrees (.setEp d₃ .hidEp 0 r)
  have hnumber : pos + 2 < 256 → (d₃.setEp .hidEp 0 r).byteAt (pos + 2) = d₀.byteAt (pos + 2) := by
    refine Driver.byteAt_congr ?_
    exact hbigbuf
  have hother : Function.update d₃.hidEp 0 r 1 = d₃.hidEp 1 := Function.update_of_ne (by decide) _ _
  exact ⟨⟨hd₄.table.of_eq rfl, hd₄.state, hd₄.address⟩,
    ⟨rfl, congrArg DevRecord.epinfo hrecord, congrArg DevRecord.devclass hrecord⟩, hbigbuf, hnumber,
    congrArg EpRecord.sndToggle (hother.trans hep₁), congrArg EpRecord.rcvToggle (hother.trans hep₁)⟩

theorem configure_driver {F : Stop Fault → Prop} {P : Byte → Prop}
    (hdispatch : ∀ token t, wp F (xferDispatchPkt c fuel token 0) (fun rcode u => P rcode ∧ u.driver = t.driver) t)
    (confvalue : Byte) (pos : Nat) {s : System σ} (hep : s.driver.Has addr 1 .hidEp) :
    wp F (configure c fuel addr confvalue pos)
      (fun found t => (found = false → ∃ rcode, rcode ≠ 0 ∧ P rcode) ∧
        t.driver = s.driver.setEp .hidEp 1 (epFromDescr s.driver.byteAt pos (s.driver.hidEp 1))) s := by
  rw [configure, wp_bind, wp_get, wp_bind, wp_modifyEndpoint hep, wp_bind, xferSetConf, wp_map]
  refine wp_mono (xferCtrlReq_driver c fuel addr 0 hdispatch _ _ _ _ _ _ _) fun r t ht => ?_
  refine wp_ite (fun hne => ⟨fun _ => ⟨_, hne, ht.1⟩, ht.2⟩) fun _ => ?_
  rw [wp_bind, wp_get, wp_bind, xferSetProto, wp_map]
  refine wp_mono (xferCtrlReq_driver c fuel addr 0 hdispatch _ _ _ _ _ _ _) fun r u hu => ?_
  exact wp_ite (fun hne => ⟨fun _ => ⟨_, hne, hu.1⟩, hu.2.trans ht.2⟩) fun _ =>
    ⟨fun hfalse => absurd hfalse.symm Bool.false_ne_true, hu.2.trans ht.2⟩

theorem parse_probed (hpos : 0 < addr.toNat) (haddr : addr.toNat ≤ m) (hclass : devclass.toNat ≤ 2) (protocol : Byte)
    (totalLength : Nat) {s : System σ} (hs : Probed d m s.driver) :
    wp Stop.Short (parse c fuel addr protocol devclass totalLength)
      (fun found t => Probed d m t.driver ∧ (found = true → Taken t.driver addr devclass)) s := by
  have hnot {t : System σ} (ht : Probed d m t.driver) :
      wp Stop.Short (pure false : Code σ Bool)
        (fun found t => Probed d m t.driver ∧ (found = true → Taken t.driver addr devclass)) t :=
    ⟨ht, fun hfalse => absurd hfalse Bool.false_ne_true⟩
  rw [parse, bigbufAt, wp_bind, wp_bind, wp_get, wp_pure, wp_bind]
  refine search_any fuel _ _ _ trivial fun interface => ?_
  cases interface with
  | none => exact hnot hs
  | some pos =>
      simp only [bigbufAt, wp_bind, wp_get, wp_pure]
      refine wp_ite (fun _ => ?_) fun _ => hnot hs
      rw [wp_bind]
      refine wp_mono (takeDevice_taken hpos haddr hclass pos hs) fun _ t ht => ?_
      obtain ⟨hprobed, htaken, -⟩ := ht
      rw [wp_bind, wp_bind, wp_get, wp_pure, wp_bind]
      refine search_any fuel _ _ _ trivial fun ep => ?_
      cases ep with
      | none => exact hnot hprobed
      | some pos =>
          have hdispatch (token : Byte) (t : System σ) : wp Stop.Short (xferDispatchPkt c fuel token 0)
              (fun rcode u => True ∧ u.driver = t.driver) t :=
            wp_mono (xferDispatchPkt_driver c fuel token 0 t) fun _ _ hu => ⟨trivial, hu⟩
          refine wp_mono (configure_driver c fuel hdispatch _ pos (htaken.has hprobed.table)) fun found u hu => ?_
          have hagrees : Agrees t.driver u.driver := hu.2 ▸ .setEp _ _ _ _
          exact ⟨hprobed.agrees hagrees, fun _ => htaken.agrees hagrees⟩

theorem hidProbe_probed (hpos : 0 < addr.toNat) (haddr : addr.toNat ≤ m) (hclass : devclass.toNat ≤ 2)
    (protocol : Byte) {s : System σ} (hs : Probed d m s.driver) :
    wp Stop.Short (hidProbe c fuel protocol devclass addr)
      (fun found t => Probed d m t.driver ∧ (found = true → Taken t.driver addr devclass)) s := by
  rw [hidProbe, wp_bind]
  refine wp_mono (getConfDescr_probed c fuel haddr _ hs) fun rcode t ht => ?_
  refine wp_ite (fun _ => ⟨ht, fun hfalse => absurd hfalse Bool.false_ne_true⟩) fun _ => ?_
  rw [wp_bind, wp_get, wp_bind]
  refine wp_mono (getConfDescr_probed c fuel haddr _ ht) fun rcode u hu => ?_
  refine wp_ite (fun _ => ⟨hu, fun hfalse => absurd hfalse Bool.false_ne_true⟩) fun _ => ?_
  exact parse_probed c fuel hpos haddr hclass protocol _ hu

end Probe

end ECE385.UsbHost.Probing
