import ECE385.UsbHost.Probing
import ECE385.UsbHost.UsbTask

namespace ECE385.UsbHost.Enumeration

open MAX3421E Records Transfer Hid UsbTask Frames Probing
open Imperative.Program

/-- The states that usb_task_state takes. The two that have no name, 0x02 and 0x05,
come from a bus event. -/
def taskStates : List Byte :=
  [detachedInitialize, 0x02, detachedWaitForDevice, detachedIllegal, 0x05, usbStateAttached, attachedSettle,
    attachedResetDevice, attachedWaitResetComplete, attachedWaitSof, attachedGetDeviceDescriptorSize,
    usbStateAddressing, usbStateConfiguring, usbStateRunning, usbStateError]

/-- Where one call of USB_Task leads. -/
def successors (state : Byte) : List Byte :=
  if state = detachedInitialize then [detachedWaitForDevice]
  else if state = usbStateAttached then [attachedSettle]
  else if state = attachedSettle then [attachedSettle, attachedResetDevice]
  else if state = attachedResetDevice then [attachedWaitResetComplete]
  else if state = attachedWaitResetComplete then [attachedWaitResetComplete, attachedWaitSof]
  else if state = attachedWaitSof then [attachedGetDeviceDescriptorSize]
  else if state = attachedGetDeviceDescriptorSize then [usbStateAddressing, usbStateError]
  else if state = usbStateAddressing then [usbStateConfiguring, usbStateError]
  else if state = usbStateConfiguring then [usbStateRunning, usbStateError]
  else [state]

/-- Where MAX_busprobe leads. -/
def sampled (state : Byte) : List Byte :=
  [detachedInitialize, detachedWaitForDevice, detachedIllegal, usbStateAttached] ++
    if state = attachedWaitResetComplete then [attachedWaitResetComplete] else []

/-- Where an interrupt leads: a bus event goes one state further. -/
def interrupted (state : Byte) : List Byte := (sampled state).flatMap fun x => [x, x + 1]

/-- Where one pass of the endless loop leads: an interrupt, USB_Task and a new start,
of which the first and the last may be left out. -/
def Passed (state state' : Byte) : Prop :=
  ∃ x ∈ state :: interrupted state, ∃ y ∈ successors x, state' = y ∨ state' ∈ sampled y

def Found (d : Driver) (addr : Byte) : Prop := ∃ devclass, (devclass = hidK ∨ devclass = hidM) ∧ Taken d addr devclass

/-- The device that was addressed last is there to be polled. -/
structure Polled (d : Driver) (m : Nat) : Prop where
  device : 0 < m
  addressed : d.tmpAddr.toNat = m
  found : Found d d.tmpAddr

/-- The states of the task against the table of devices. -/
structure Sound (d : Driver) (m : Nat) : Prop where
  table : Enumerated d m
  state : d.usbTaskState ∈ taskStates
  configuring : d.usbTaskState = usbStateConfiguring → 0 < m ∧ d.tmpAddr.toNat = m
  running : d.usbTaskState = usbStateRunning → Polled d m

theorem successors_taskStates {state state' : Byte} (h : state ∈ taskStates) (h' : state' ∈ successors state) :
    state' ∈ taskStates := by
  unfold successors at h'
  split_ifs at h'
  case neg => exact List.mem_singleton.mp h' ▸ h
  all_goals exact (by decide : ∀ x ∈ _, x ∈ taskStates) state' h'

theorem of_interrupted {P : Byte → Prop} (hall : ∀ x ∈ [detachedInitialize, detachedWaitForDevice, detachedIllegal,
    usbStateAttached, attachedWaitResetComplete], ∀ y ∈ [x, x + 1], P y) {state state' : Byte}
    (h : state' ∈ interrupted state) : P state' := by
  obtain ⟨x, hx, hstate⟩ := List.mem_flatMap.mp h
  refine hall x ?_ state' hstate
  rw [sampled] at hx
  split_ifs at hx
  · exact hx
  · exact List.mem_append_left [attachedWaitResetComplete] (List.append_nil _ ▸ hx)

theorem sampled_interrupted {state state' : Byte} (h : state' ∈ sampled state) : state' ∈ interrupted state :=
  List.mem_flatMap.mpr ⟨state', h, List.mem_cons_self⟩

theorem interrupted_taskStates {state state' : Byte} (h : state' ∈ interrupted state) :
    state' ∈ taskStates ∧ state' ≠ usbStateConfiguring ∧ state' ≠ usbStateRunning :=
  of_interrupted (P := fun y => y ∈ taskStates ∧ y ≠ usbStateConfiguring ∧ y ≠ usbStateRunning) (by decide +kernel) h

def Late (state : Byte) : Prop :=
  state = usbStateAddressing ∨ state = usbStateConfiguring ∨ state = usbStateRunning

theorem not_late_of_interrupted {state state' : Byte} (h : state' ∈ interrupted state) :
    ¬Late state' ∧ ∀ next ∈ successors state', ¬Late next := by
  unfold Late
  exact of_interrupted (P := fun y => ¬(y = usbStateAddressing ∨ y = usbStateConfiguring ∨ y = usbStateRunning) ∧
    ∀ next ∈ successors y, ¬(next = usbStateAddressing ∨ next = usbStateConfiguring ∨ next = usbStateRunning))
    (by decide +kernel) h

/-- A late state comes straight from the one before, with no interrupt between. -/
theorem Passed.late {state state' : Byte} (h : Passed state state') (hlate : Late state') :
    state' ∈ successors state := by
  obtain ⟨x, hx, y, hy, rfl | hsampled⟩ := h
  · rcases List.mem_cons.mp hx with rfl | hx
    · exact hy
    · exact absurd hlate ((not_late_of_interrupted hx).2 _ hy)
  · exact absurd hlate (not_late_of_interrupted (sampled_interrupted hsampled)).1

section Driver

variable {d d' : Driver} {m : Nat}

theorem Sound.of_table (table : Enumerated d m) (hstate : d.usbTaskState ∈ taskStates)
    (hconfiguring : d.usbTaskState ≠ usbStateConfiguring) (hrunning : d.usbTaskState ≠ usbStateRunning) :
    Sound d m :=
  ⟨table, hstate, fun h => absurd h hconfiguring, fun h => absurd h hrunning⟩

theorem Polled.agrees (h : Polled d m) (hd : Agrees d d') : Polled d' m := by
  obtain ⟨hdevice, haddressed, devclass, hclass, htaken⟩ := h
  have htaken' := htaken.agrees hd
  obtain ⟨e, g, rfl⟩ := hd
  exact ⟨hdevice, haddressed, devclass, hclass, htaken'⟩

theorem Sound.agrees (h : Sound d m) (hd : Agrees d d') : Sound d' m := by
  have htable := h.table.agrees hd
  have hrunning := fun hstate => (h.running hstate).agrees hd
  obtain ⟨e, g, rfl⟩ := hd
  exact ⟨htable, h.state, h.configuring, hrunning⟩

theorem Sound.of_interrupted (table : Enumerated d m) {state : Byte} (h : d.usbTaskState ∈ interrupted state) :
    Sound d m := by
  obtain ⟨hstate, hconfiguring, hrunning⟩ := interrupted_taskStates h
  exact .of_table table hstate hconfiguring hrunning

theorem Polled.has (h : Polled d m) (table : Enumerated d m) : d.Has d.hidAddr 1 .hidEp := by
  obtain ⟨-, -, devclass, -, htaken⟩ := h
  have hep := htaken.has table
  rwa [htaken.address]

theorem Polled.hidAddr (h : Polled d m) : d.hidAddr.toNat = m := by
  obtain ⟨-, haddress, devclass, -, htaken⟩ := h
  rw [htaken.address, haddress]

theorem enumerated_init (d : Driver) : Enumerated (initDriver d) 0 := by
  refine ⟨by decide, rfl, fun i => ?_, fun _ => Nat.zero_le _⟩
  cases i with
  | zero => exact ⟨fun h => absurd h (Option.some_ne_none _), fun h => absurd h (Nat.lt_irrefl 0)⟩
  | succ i => exact ⟨fun _ => Nat.succ_pos i, fun _ => rfl⟩

theorem freeAddress_eq (h : Enumerated d m) :
    freeAddress d = if m + 1 < usbNumDevices then some (BitVec.ofNat 8 (m + 1)) else none := by
  have hfree (i : Byte) : (d.devtable i.toNat).epinfo.isNone = decide (m < i.toNat) :=
    Bool.eq_iff_iff.mpr (by rw [Option.isNone_iff_eq_none, h.device, decide_eq_true_iff])
  have hfind : ∀ m < usbNumDevices, addresses.find? (fun i => decide (m < i.toNat)) =
      if m + 1 < usbNumDevices then some (BitVec.ofNat 8 (m + 1)) else none := by decide
  rw [freeAddress, ← hfind m h.bound]
  simp only [hfree]

end Driver

section Task

variable {σ : Type} (c : Chip σ) (fuel : Nat) {m : Nat} {s : System σ}

/-- The interrupt pin is only low for the interrupt that is enabled. -/
def Signals : Prop := ∀ chip, (c.irq chip).1 = true → (c.regRd rHIRQ (c.irq chip).2).1 &&& bmCONDETIRQ ≠ 0

theorem startHost_sampled (fast slow : Byte) :
    wp Stop.Short (startHost c fast slow)
      (fun _ t => ∃ state ∈ sampled s.driver.usbTaskState, t.driver = { s.driver with usbTaskState := state }) s := by
  obtain ⟨chip, d⟩ := s
  rw [startHost, wp_bind, wp_get]
  refine wp_doIf (fun _ => ?_) fun hwait => ?_
  · rw [wp_bind]
    refine wp_chip fun mode chip => ?_
    rw [wp_bind]
    exact wp_chip fun _ chip => ⟨usbStateAttached, by simp [sampled], rfl⟩
  · have hstate : d.usbTaskState = attachedWaitResetComplete := not_not.mp hwait
    exact ⟨d.usbTaskState, by simp [sampled, hstate], rfl⟩

theorem maxBusprobe_sampled :
    wp Stop.Short (maxBusprobe c)
      (fun _ t => ∃ state ∈ sampled s.driver.usbTaskState, t.driver = { s.driver with usbTaskState := state }) s := by
  obtain ⟨chip, d⟩ := s
  rw [maxBusprobe, wp_bind]
  refine wp_chip fun hrsl chip => ?_
  refine wp_ite (fun _ => startHost_sampled c _ _) fun _ => wp_ite (fun _ => startHost_sampled c _ _) fun _ => ?_
  refine wp_ite (fun _ => ⟨detachedIllegal, by simp [sampled], rfl⟩) fun _ => ?_
  rw [wp_bind, wp_get]
  refine wp_ite (fun _ => ⟨detachedInitialize, by simp [sampled], rfl⟩) fun _ => ?_
  rw [wp_bind]
  exact wp_chip fun _ chip => ⟨detachedWaitForDevice, by simp [sampled], rfl⟩

theorem maxIntHandler_interrupted (hsignal : (c.regRd rHIRQ s.chip).1 &&& bmCONDETIRQ ≠ 0) :
    wp Stop.Short (maxIntHandler c)
      (fun _ t => ∃ state ∈ interrupted s.driver.usbTaskState, t.driver = { s.driver with usbTaskState := state })
      s := by
  rw [maxIntHandler, wp_bind, wp_regRd, wp_bind, doIf, if_pos hsignal]
  refine wp_mono (maxBusprobe_sampled c) fun _ t ht => ?_
  obtain ⟨chip, d⟩ := t
  obtain ⟨state, hstate, rfl⟩ := ht
  rw [wp_bind]
  refine wp_mono (P := fun _ (t : System σ) => t.driver = { s.driver with usbTaskState := state })
    (wp_doIf (fun _ => rfl) fun _ => rfl) fun _ t ht => ?_
  obtain ⟨chip, d⟩ := t
  obtain rfl := ht
  rw [wp_bind]
  refine wp_doIf (fun _ => ⟨state + 1, List.mem_flatMap.mpr ⟨state, hstate, ?_⟩, rfl⟩) fun _ => ?_
  · exact List.mem_cons_of_mem _ List.mem_cons_self
  · exact ⟨state, List.mem_flatMap.mpr ⟨state, hstate, List.mem_cons_self⟩, rfl⟩

def Serviced (d d' : Driver) : Prop :=
  d' = d ∨ ∃ state ∈ interrupted d.usbTaskState, d' = { d with usbTaskState := state }

theorem max3421ETask_serviced (hsignals : Signals c) :
    wp Stop.Short (max3421ETask c) (fun _ t => Serviced s.driver t.driver) s := by
  obtain ⟨chip, d⟩ := s
  rw [max3421ETask, wp_bind, wp_onChip, wp_bind]
  refine wp_mono (P := fun _ (t : System σ) => Serviced d t.driver) (wp_doIf (fun hirq => ?_) fun _ => .inl rfl)
    fun _ t ht => ?_
  · exact wp_mono (maxIntHandler_interrupted c (hsignals chip hirq)) fun _ t ht => .inr ht
  · obtain ⟨chip, d'⟩ := t
    rw [wp_bind]
    refine wp_chip fun gpx chip => wp_doIf (fun _ => ?_) fun _ => ht
    rw [maxGpxHandler, wp_bind]
    exact wp_chip fun _ _ => ht

/-- What USB_Task does before there is an address: it works on the table. -/
def Prepared (d d' : Driver) : Prop := (∃ m, Enumerated d' m) ∧ d'.usbTaskState ∈ successors d.usbTaskState

theorem Prepared.of_state {d d' : Driver} (table : Enumerated d' m) {x y : Byte} (hx : d.usbTaskState = x)
    (hy : d'.usbTaskState = y) (h : y ∈ successors x) : Prepared d d' :=
  ⟨⟨m, table⟩, hx ▸ hy ▸ h⟩

theorem detachedTask_prepared (table : Enumerated s.driver m) (h : s.driver.usbTaskState ∈ taskStates)
    (hmask : s.driver.usbTaskState &&& usbStateMask = usbStateDetached) :
    wp Stop.Short (detachedTask c s.driver.usbTaskState) (fun _ t => Prepared s.driver t.driver) s := by
  have hrest : ∀ x ∈ taskStates, x &&& usbStateMask = usbStateDetached → x ≠ detachedInitialize →
      x ∈ successors x := by decide
  obtain ⟨chip, d⟩ := s
  refine wp_ite (fun hstate => ?_) fun hne => wp_ite (fun _ => ?_) fun _ => ?_
  · rw [wp_bind]
    exact .of_state ((enumerated_init d).of_eq rfl) hstate (y := detachedWaitForDevice) rfl (by decide)
  · exact .of_state table rfl rfl (hrest _ h hmask hne)
  · exact .of_state table rfl rfl (hrest _ h hmask hne)

theorem getStrDescr_agrees (hep : s.driver.Has 0 0 .dev0ep) (index : Byte) :
    wp Stop.Short (getStrDescr c fuel index) (fun _ t => Agrees s.driver t.driver) s := by
  obtain ⟨chip, d⟩ := s
  rw [getStrDescr, wp_bind]
  refine wp_chip fun stale chip => ?_
  rw [wp_bind, xferGetStrDescr]
  refine wp_mono (xferCtrlReq_agrees c fuel (s := ⟨chip, d⟩) hep _ _ _ _ _ _ _) fun r t ht => ?_
  rw [wp_bind, xferGetStrDescr]
  refine wp_mono (xferCtrlReq_agrees c fuel (ht.has hep) _ _ _ _ _ _ _) fun r u hu => ?_
  exact wp_doIf (fun _ => trivial) fun _ => ht.trans hu

theorem getDeviceDescriptor_prepared (table : Enumerated s.driver m)
    (hstate : s.driver.usbTaskState = attachedGetDeviceDescriptorSize) :
    wp Stop.Short (getDeviceDescriptor c fuel) (fun _ t => Prepared s.driver t.driver) s := by
  obtain ⟨chip, d⟩ := s
  have hep : d.Has 0 0 .dev0ep := ⟨Nat.zero_le _, table.root, by decide⟩
  rw [getDeviceDescriptor, wp_bind]
  refine wp_touch hep fun d₁ h₁ => ?_
  rw [wp_bind]
  refine wp_chip fun stale chip => ?_
  rw [wp_bind, xferGetDevDescr]
  refine wp_mono (xferCtrlReq_agrees c fuel (s := ⟨chip, d₁⟩) (h₁.has hep) _ _ _ _ _ _ _) fun r t h₂ => ?_
  obtain ⟨chip, d₂⟩ := t
  have hd₂ : Agrees d d₂ := h₁.trans h₂
  refine wp_ite (fun _ => ?_) fun _ => ?_
  · rw [wp_bind]
    refine wp_touch (hd₂.has hep) fun d₃ h₃ => ?_
    rw [wp_bind, xferGetDevDescr]
    refine wp_mono (xferCtrlReq_agrees c fuel (s := ⟨chip, d₃⟩) ((hd₂.trans h₃).has hep) _ _ _ _ _ _ _)
      fun r t h₄ => ?_
    have hd₄ := (hd₂.trans h₃).trans h₄
    rw [wp_bind]
    refine wp_mono (P := fun _ (u : System σ) => Agrees d u.driver) (wp_doIf (fun _ => ?_) fun _ => hd₄)
      fun _ u hu => ?_
    · exact wp_mono (getStrDescr_agrees c fuel (hd₄.has hep) _) fun _ _ h₅ => hd₄.trans h₅
    rw [wp_bind]
    refine wp_mono (P := fun _ (v : System σ) => Agrees d v.driver) (wp_doIf (fun _ => ?_) fun _ => hu) fun _ v hv => ?_
    · exact wp_mono (getStrDescr_agrees c fuel (hu.has hep) _) fun _ _ h₅ => hu.trans h₅
    exact .of_state ((table.agrees hv).of_eq rfl) hstate (y := usbStateAddressing) rfl (by decide)
  · exact .of_state ((table.agrees hd₂).of_eq rfl) hstate (y := usbStateError) rfl (by decide)

theorem attachedTask_prepared (table : Enumerated s.driver m) (h : s.driver.usbTaskState ∈ taskStates)
    (hmask : s.driver.usbTaskState &&& usbStateMask = usbStateAttached) :
    wp Stop.Short (attachedTask c fuel s.driver.usbTaskState) (fun _ t => Prepared s.driver t.driver) s := by
  have hrest : ∀ x ∈ taskStates, x &&& usbStateMask = usbStateAttached → x ≠ usbStateAttached →
      x ≠ attachedSettle → x ≠ attachedResetDevice → x ≠ attachedWaitResetComplete → x ≠ attachedWaitSof →
      x = attachedGetDeviceDescriptorSize := by decide
  obtain ⟨chip, d⟩ := s
  refine wp_ite (fun hstate => ?_) fun hne₀ => wp_ite (fun hstate => ?_) fun hne₁ => wp_ite (fun hstate => ?_)
    fun hne₂ => wp_ite (fun hstate => ?_) fun hne₃ => wp_ite (fun hstate => ?_) fun hne₄ =>
    wp_ite (fun hstate => getDeviceDescriptor_prepared c fuel table hstate) fun hne₅ => ?_
  · rw [wp_bind]
    refine wp_chip fun now chip => ?_
    rw [wp_bind]
    exact .of_state (table.of_eq rfl) hstate (y := attachedSettle) rfl (by decide)
  · rw [wp_bind]
    refine wp_chip fun now chip => ?_
    rw [wp_bind, wp_get]
    refine wp_doIf (fun _ => ?_) fun _ => ?_
    · exact .of_state (table.of_eq rfl) hstate (y := attachedResetDevice) rfl (by decide)
    · exact .of_state table hstate hstate (by decide)
  · rw [wp_bind]
    refine wp_chip fun _ chip => ?_
    rw [wp_bind]
    exact wp_chip fun _ chip =>
      .of_state (table.of_eq rfl) hstate (y := attachedWaitResetComplete) rfl (by decide)
  · rw [wp_bind]
    refine wp_chip fun hctl chip => wp_doIf (fun _ => ?_) fun _ => ?_
    · rw [wp_bind]
      refine wp_chip fun mode chip => ?_
      rw [wp_bind]
      exact wp_chip fun _ chip => .of_state (table.of_eq rfl) hstate (y := attachedWaitSof) rfl (by decide)
    · exact .of_state table hstate hstate (by decide)
  · rw [wp_bind]
    refine wp_chip fun hirq chip => wp_doIf (fun _ => ?_) fun hnone => ?_
    · exact .of_state (table.of_eq rfl) hstate (y := attachedGetDeviceDescriptorSize) rfl (by decide)
    · have hbit := congrArg (fun v : Byte => v.getLsbD 6) (not_not.mp hnone)
      simp [bmFRAMEIRQ] at hbit
  · exact absurd (hrest _ h hmask hne₀ hne₁ hne₂ hne₃ hne₄) hne₅

def Assigned (d : Driver) (m : Nat) : Prop :=
  d.usbTaskState = usbStateError ∨ d.usbTaskState = usbStateConfiguring ∧ 0 < m ∧ d.tmpAddr.toNat = m

theorem assign_assigned (table : Enumerated s.driver m) (hfree : m + 1 < usbNumDevices) :
    wp Stop.Short (assign c fuel (BitVec.ofNat 8 (m + 1)))
      (fun _ t => Enumerated t.driver (m + 1) ∧ Assigned t.driver (m + 1)) s := by
  obtain ⟨chip, d⟩ := s
  have hi : (BitVec.ofNat 8 (m + 1)).toNat = m + 1 := by
    rw [BitVec.toNat_ofNat]
    exact Nat.mod_eq_of_lt (Nat.lt_trans hfree (by decide))
  rw [assign, wp_bind]
  refine wp_assign fun d₁ h₁ => ?_
  have htable : Enumerated d₁ (m + 1) := by
    rw [h₁, hi, table.root]
    refine table.update hfree (fun j hne => ?_) (Nat.succ_pos m) ⟨?_, ?_⟩ (table.classes _)
    · omega
    · exact fun hnone => absurd hnone (Option.some_ne_none _)
    · exact fun hlt => absurd hlt (Nat.lt_irrefl _)
  have hep : d₁.Has 0 0 .dev0ep := ⟨Nat.zero_le _, htable.root, by decide⟩
  rw [wp_bind, xferSetAddr, wp_map]
  refine wp_mono (xferCtrlReq_agrees c fuel (s := ⟨chip, d₁⟩) hep _ _ _ _ _ _ _) fun r t ht => ?_
  have htable' := htable.agrees ht
  refine wp_ite (fun _ => ?_) fun _ => ⟨htable'.of_eq rfl, .inl rfl⟩
  rw [wp_bind]
  exact ⟨htable'.of_eq rfl, .inr ⟨rfl, Nat.succ_pos m, hi⟩⟩

theorem addressingTask_assigned (table : Enumerated s.driver m)
    (hstate : s.driver.usbTaskState = usbStateAddressing) :
    wp Stop.Short (addressingTask c fuel) (fun _ t => ∃ m', Enumerated t.driver m' ∧ Assigned t.driver m') s := by
  have hfirst : wp Stop.Short (assignFree c fuel) (fun _ t => ∃ m', Enumerated t.driver m' ∧
      (t.driver.usbTaskState = usbStateAddressing ∨ Assigned t.driver m')) s := by
    rw [assignFree, wp_bind, wp_get, freeAddress_eq table]
    by_cases hfree : m + 1 < usbNumDevices
    · rw [if_pos hfree]
      exact wp_mono (assign_assigned c fuel table hfree) fun _ t ht => ⟨m + 1, ht.1, .inr ht.2⟩
    · rw [if_neg hfree]
      exact ⟨m, table, .inl hstate⟩
  rw [addressingTask, wp_bind]
  refine wp_mono hfirst fun _ t ht => ?_
  obtain ⟨m', htable, ht⟩ := ht
  rw [wp_bind, wp_get]
  exact wp_doIf (fun _ => ⟨m', htable.of_eq rfl, .inl rfl⟩) fun hne => ⟨m', htable, ht.resolve_left hne⟩

theorem probeAll_found {d : Driver} {addr : Byte} {probes : List (Byte → Code σ Bool)}
    (hprobes : ∀ probe ∈ probes, ∀ s, Probed d m s.driver →
      wp Stop.Short (probe addr) (fun found t => Probed d m t.driver ∧ (found = true → Found t.driver addr)) s)
    (hs : Probed d m s.driver) :
    wp Stop.Short (probeAll addr probes)
      (fun _ t => Enumerated t.driver m ∧ t.driver.tmpAddr = d.tmpAddr ∧
        (t.driver.usbTaskState = d.usbTaskState ∨ t.driver.usbTaskState = usbStateRunning ∧ Found t.driver addr))
      s := by
  induction probes generalizing s with
  | nil => exact ⟨hs.table, hs.address, .inl hs.state⟩
  | cons probe probes ih =>
      rw [probeAll, wp_bind]
      refine wp_mono (hprobes probe List.mem_cons_self s hs) fun found t ht => wp_ite (fun hfound => ?_) fun _ => ?_
      · obtain ⟨devclass, hclass, haddress, hpointer, hentered⟩ := ht.2 hfound
        exact ⟨ht.1.table.of_eq rfl, ht.1.address, .inr ⟨rfl, devclass, hclass, haddress, hpointer, hentered⟩⟩
      · exact ih (fun probe' hmem => hprobes probe' (List.mem_cons_of_mem _ hmem)) ht.1

theorem clientDriverTable_found {d : Driver} {addr : Byte} (hpos : 0 < addr.toNat) (haddr : addr.toNat ≤ m) :
    ∀ probe ∈ clientDriverTable c fuel, ∀ s, Probed d m s.driver →
      wp Stop.Short (probe addr) (fun found t => Probed d m t.driver ∧ (found = true → Found t.driver addr)) s := by
  intro probe hmem s hs
  have hnone : wp Stop.Short (pure false : Code σ Bool)
      (fun found t => Probed d m t.driver ∧ (found = true → Found t.driver addr)) s :=
    ⟨hs, fun hfalse => absurd hfalse Bool.false_ne_true⟩
  simp only [clientDriverTable, List.mem_cons, List.not_mem_nil, or_false] at hmem
  rcases hmem with rfl | rfl | rfl | rfl
  · exact hnone
  · have hclass : hidM.toNat ≤ 2 := by decide
    refine wp_mono (hidProbe_probed c fuel hpos haddr hclass _ hs) fun found t ht => ?_
    exact ⟨ht.1, fun hfound => ⟨hidM, .inr rfl, ht.2 hfound⟩⟩
  · have hclass : hidK.toNat ≤ 2 := by decide
    refine wp_mono (hidProbe_probed c fuel hpos haddr hclass _ hs) fun found t ht => ?_
    exact ⟨ht.1, fun hfound => ⟨hidK, .inl rfl, ht.2 hfound⟩⟩
  · exact hnone

theorem configuringTask_polled (h : Sound s.driver m) (hstate : s.driver.usbTaskState = usbStateConfiguring) :
    wp Stop.Short (configuringTask c fuel)
      (fun _ t => Enumerated t.driver m ∧ (t.driver.usbTaskState = usbStateError ∨
        t.driver.usbTaskState = usbStateRunning ∧ Polled t.driver m)) s := by
  obtain ⟨hpos, haddress⟩ := h.configuring hstate
  rw [configuringTask, wp_bind, wp_get, wp_bind]
  refine wp_mono (probeAll_found (clientDriverTable_found c fuel (haddress ▸ hpos) (Nat.le_of_eq haddress))
    ⟨h.table, rfl, rfl⟩) fun _ t ht => ?_
  obtain ⟨htable, htmp, ht⟩ := ht
  rw [wp_bind, wp_get]
  refine wp_doIf (fun _ => ⟨htable.of_eq rfl, .inl rfl⟩) fun hne => ⟨htable, ?_⟩
  rcases ht with ht | ⟨hrunning, hfound⟩
  · exact absurd (ht.trans hstate) hne
  · exact .inr ⟨hrunning, hpos, htmp ▸ haddress, htmp ▸ hfound⟩

/-- One call of USB_Task. A device that runs is left alone. -/
theorem usbTask_sound (h : Sound s.driver m) :
    wp Stop.Short (usbTask c fuel)
      (fun _ t => (∃ m', Sound t.driver m') ∧ t.driver.usbTaskState ∈ successors s.driver.usbTaskState ∧
        (s.driver.usbTaskState = usbStateRunning → t.driver = s.driver)) s := by
  have hearly : ∀ x ∈ taskStates, x &&& usbStateMask = usbStateDetached ∨ x &&& usbStateMask = usbStateAttached →
      x ≠ usbStateRunning ∧ ∀ y ∈ successors x, y ≠ usbStateConfiguring ∧ y ≠ usbStateRunning := by
    decide +kernel
  have hprepared {t : System σ} (hmask : s.driver.usbTaskState &&& usbStateMask = usbStateDetached ∨
      s.driver.usbTaskState &&& usbStateMask = usbStateAttached) (ht : Prepared s.driver t.driver) :
      (∃ m', Sound t.driver m') ∧ t.driver.usbTaskState ∈ successors s.driver.usbTaskState ∧
        (s.driver.usbTaskState = usbStateRunning → t.driver = s.driver) := by
    obtain ⟨hne, hnext⟩ := hearly _ h.state hmask
    obtain ⟨⟨m', htable⟩, hmem⟩ := ht
    obtain ⟨hconfiguring, hrunning⟩ := hnext _ hmem
    exact ⟨⟨m', .of_table htable (successors_taskStates h.state hmem) hconfiguring hrunning⟩, hmem,
      fun hstate => absurd hstate hne⟩
  have hlate : ∀ x ∈ taskStates, (x &&& usbStateMask = usbStateAddressing → x = usbStateAddressing) ∧
      (x &&& usbStateMask = usbStateConfiguring → x = usbStateConfiguring) := by decide
  have hrest : ∀ x ∈ taskStates, x &&& usbStateMask ≠ usbStateDetached → x &&& usbStateMask ≠ usbStateAttached →
      x &&& usbStateMask ≠ usbStateAddressing → x &&& usbStateMask ≠ usbStateConfiguring → x ∈ successors x := by
    decide
  rw [usbTask, wp_bind, wp_get]
  refine wp_ite (fun hmask => ?_) fun hne₀ => wp_ite (fun hmask => ?_) fun hne₁ => wp_ite (fun hmask => ?_)
    fun hne₂ => wp_ite (fun hmask => ?_) fun hne₃ => ?_
  · exact wp_mono (detachedTask_prepared c h.table h.state hmask) fun _ t ht => hprepared (.inl hmask) ht
  · exact wp_mono (attachedTask_prepared c fuel h.table h.state hmask) fun _ t ht => hprepared (.inr hmask) ht
  · have hstate := (hlate _ h.state).1 hmask
    refine wp_mono (addressingTask_assigned c fuel h.table hstate) fun _ t ht => ?_
    obtain ⟨m', htable, ht⟩ := ht
    rw [hstate]
    rcases ht with hstate' | ⟨hstate', hdevice⟩
    · exact ⟨⟨m', .of_table htable (hstate' ▸ by decide) (hstate' ▸ by decide) (hstate' ▸ by decide)⟩,
        hstate' ▸ by decide, fun hfalse => absurd hfalse (by decide)⟩
    · exact ⟨⟨m', htable, hstate' ▸ by decide, fun _ => hdevice, fun hfalse => absurd (hstate' ▸ hfalse) (by decide)⟩,
        hstate' ▸ by decide, fun hfalse => absurd hfalse (by decide)⟩
  · have hstate := (hlate _ h.state).2 hmask
    refine wp_mono (configuringTask_polled c fuel h hstate) fun _ t ht => ?_
    obtain ⟨htable, ht⟩ := ht
    rw [hstate]
    rcases ht with hstate' | ⟨hstate', hpolled⟩
    · exact ⟨⟨m, .of_table htable (hstate' ▸ by decide) (hstate' ▸ by decide) (hstate' ▸ by decide)⟩,
        hstate' ▸ by decide, fun hfalse => absurd hfalse (by decide)⟩
    · exact ⟨⟨m, htable, hstate' ▸ by decide, fun hfalse => absurd (hstate' ▸ hfalse) (by decide), fun _ => hpolled⟩,
        hstate' ▸ by decide, fun hfalse => absurd hfalse (by decide)⟩
  · exact ⟨⟨m, h⟩, hrest _ h.state hne₀ hne₁ hne₂ hne₃, fun _ => rfl⟩

end Task

end ECE385.UsbHost.Enumeration
