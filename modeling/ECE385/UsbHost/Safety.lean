import Mathlib.Tactic.IntervalCases
import ECE385.UsbHost.Dispatch
import ECE385.UsbHost.Enumeration
import ECE385.UsbHost.Main

namespace ECE385.UsbHost.Safety

open MAX3421E Records Transfer Hid UsbTask Main
open Frames Probing Enumeration
open Imperative.Program

/-- What holds at the top of the endless loop: while the flag is up the device runs,
and the local knows its class. -/
structure Kept (v : Locals) (d : Driver) : Prop where
  sound : ∃ m, Sound d m
  polling : v.runningdebugflag = true →
    d.usbTaskState = usbStateRunning ∧ v.device = (d.devtable d.hidAddr.toNat).devclass

section Driver

variable {d d' : Driver} {m : Nat}

theorem Kept.of_table {v : Locals} (hflag : v.runningdebugflag = false) (h : Sound d m) : Kept v d :=
  ⟨⟨m, h⟩, fun htrue => absurd (hflag.symm.trans htrue) Bool.false_ne_true⟩

theorem Kept.agrees {v v' : Locals} (h : Kept v d) (hflag : v'.runningdebugflag = v.runningdebugflag)
    (hdevice : v'.device = v.device) (hd : Agrees d d') : Kept v' d' := by
  obtain ⟨m, hsound⟩ := h.sound
  have hsound' := hsound.agrees hd
  obtain ⟨e, g, rfl⟩ := hd
  exact ⟨⟨m, hsound'⟩, fun htrue => ⟨(h.polling (hflag ▸ htrue)).1, hdevice.trans (h.polling (hflag ▸ htrue)).2⟩⟩

theorem running_interrupted {state state' : Byte} (h : state ∈ interrupted usbStateRunning)
    (h' : state' ∈ successors state) : state' ≠ usbStateRunning ∧ state' ≠ usbStateError := by
  have hall : ∀ x ∈ interrupted usbStateRunning, ∀ y ∈ successors x, y ≠ usbStateRunning ∧ y ≠ usbStateError := by
    decide
  exact hall state h state' h'

end Driver

section Main

variable {σ : Type} (c : Chip σ) (fuel : Nat) {s : System σ} {m : Nat}

theorem max3421EReset_driver : wp Stop.Short (max3421EReset c fuel) (fun _ t => t.driver = s.driver) s := by
  rw [max3421EReset]
  simp only [wp_bind, wp_onChip, wp_regWr]
  refine wp_loop (fun _ (t : System σ) => t.driver = s.driver) (fun _ t ht => ?_) fuel trivial rfl
  rw [wp_bind, wp_regRd]
  exact wp_ite (fun _ => ht) fun _ => ht

theorem max3421EInit_sampled :
    wp Stop.Short (max3421EInit c fuel)
      (fun _ t => ∃ state ∈ sampled s.driver.usbTaskState, t.driver = { s.driver with usbTaskState := state }) s := by
  rw [max3421EInit, wp_bind, wp_regWr, wp_bind]
  refine wp_mono (max3421EReset_driver c fuel) fun _ t ht => ?_
  simp only [wp_bind, wp_regWr]
  refine wp_mono (maxBusprobe_sampled c) fun _ u hu => ?_
  obtain ⟨state, hstate, hu⟩ := hu
  exact ⟨state, ht ▸ hstate, ht ▸ hu⟩

theorem usbInit_sound {d : Driver} {state : Byte} (hstate : state ∈ sampled d.usbTaskState)
    (hs : s.driver = { d with usbTaskState := state }) :
    wp Stop.Short usbInit (fun _ t => Sound t.driver 0 ∧ t.driver.usbTaskState = state) s := by
  obtain ⟨chip, d'⟩ := s
  obtain rfl := hs
  exact ⟨.of_interrupted (enumerated_init _) (sampled_interrupted hstate), rfl⟩

theorem notRunning_kept (v : Locals) (h : Sound s.driver m) :
    wp Stop.Short (notRunning c fuel v)
      (fun v' t => Kept v' t.driver ∧ (t.driver.usbTaskState = s.driver.usbTaskState ∨
        t.driver.usbTaskState ∈ sampled s.driver.usbTaskState)) s := by
  rw [notRunning, wp_bind]
  refine wp_mono (P := fun _ (t : System σ) => (∃ m', Sound t.driver m') ∧
    (t.driver.usbTaskState = s.driver.usbTaskState ∨ t.driver.usbTaskState ∈ sampled s.driver.usbTaskState))
    (wp_doIf (fun _ => ?_) fun _ => ⟨⟨m, h⟩, .inl rfl⟩) fun _ t ht => ?_
  · rw [wp_bind]
    refine wp_mono (max3421EInit_sampled c fuel) fun _ t ht => ?_
    obtain ⟨state, hstate, ht⟩ := ht
    exact wp_mono (usbInit_sound hstate ht) fun _ u hu => ⟨⟨0, hu.1⟩, .inr (hu.2 ▸ hstate)⟩
  · obtain ⟨⟨m', hsound⟩, hstate⟩ := ht
    exact ⟨.of_table rfl hsound, hstate⟩

/-- The last device in the table is the one that was addressed last. -/
theorem lastDevice_class {d : Driver} (h : Sound d m) (hpos : 0 < m) :
    wp Stop.Short (lastDevice d addresses 0xff) (fun device t => device = (d.devtable m).devclass ∧ t = s) s := by
  have hfold (is : List Byte) (device : Byte) :
      wp Stop.Short (lastDevice d is device)
        (fun r t => r = is.foldl (fun r i => if m < i.toNat then r else (d.devtable i.toNat).devclass) device ∧ t = s)
        s := by
    induction is generalizing device with
    | nil => exact ⟨rfl, rfl⟩
    | cons i is ih =>
        rw [lastDevice, List.foldl_cons]
        refine wp_ite (fun hnone => ?_) fun hsome => ?_
        · rw [if_pos ((h.table.device _).mp hnone)]
          exact ih device
        · rw [if_neg fun hlt => hsome ((h.table.device _).mpr hlt)]
          exact wp_ite (fun _ => ih _) fun hle => absurd (Nat.lt_succ_of_le (Nat.le_succ_of_le (h.table.classes _))) hle
  have hall : ∀ m < usbNumDevices, 0 < m → ∀ classes : Nat → Byte,
      addresses.foldl (fun r i => if m < i.toNat then r else classes i.toNat) 0xff = classes m := by
    intro m hm hpos classes
    replace hm : m < 8 := hm
    interval_cases m <;> rfl
  refine wp_mono (hfold addresses 0xff) fun r t ht => ⟨ht.1.trans ?_, ht.2⟩
  exact hall m h.table.bound hpos fun i => (d.devtable i).devclass

theorem getDriverandReport_class (h : Sound s.driver m) (hpolled : Polled s.driver m) :
    wp Stop.Short (getDriverandReport c fuel)
      (fun device t => device = (s.driver.devtable m).devclass ∧ Agrees s.driver t.driver) s := by
  have haddr : Main.addr.toNat ≤ m := hpolled.device
  obtain ⟨tbl, hep⟩ := h.table.has haddr
  rw [getDriverandReport, wp_bind, wp_get, wp_bind]
  refine wp_mono (lastDevice_class h hpolled.device) fun device t ht => ?_
  obtain ⟨hdevice, rfl⟩ := ht
  rw [wp_bind, xferGetIdle]
  refine wp_mono (xferCtrlReq_agrees c fuel hep _ _ _ _ _ _ _) fun _ u hu => ?_
  rw [wp_bind, wp_get, wp_bind, xferGetProto]
  exact wp_mono (xferCtrlReq_agrees c fuel (hu.has hep) _ _ _ _ _ _ _) fun _ w hw => ⟨hdevice, hu.trans hw⟩

theorem poll_agrees (h : Sound s.driver m) (hpolled : Polled s.driver m) :
    wp Stop.Short (poll c fuel) (fun _ t => Agrees s.driver t.driver) s := by
  obtain ⟨chip, d⟩ := s
  have hep : d.Has d.hidAddr 1 .hidEp := hpolled.has h.table
  rw [poll, wp_bind, wp_get, wp_bind]
  refine wp_chip fun _ chip => ?_
  rw [wp_bind, wp_endpoint hep]
  exact xferInTransfer_agrees c fuel (s := ⟨chip, d⟩) hep _ _ _

theorem running_kept (v : Locals) (h : Sound s.driver m) (hstate : s.driver.usbTaskState = usbStateRunning)
    (hclass : v.runningdebugflag = true → v.device = (s.driver.devtable s.driver.hidAddr.toNat).devclass) :
    wp Stop.Short (running c fuel v) (fun v' t => Kept v' t.driver ∧ t.driver.usbTaskState = s.driver.usbTaskState) s := by
  have hpolled := h.running hstate
  have hend {v v' : Locals} {t : System σ} (hkept : Kept v s.driver)
      (hflag : v'.runningdebugflag = v.runningdebugflag) (hdevice : v'.device = v.device)
      (ht : Agrees s.driver t.driver) : Kept v' t.driver ∧ t.driver.usbTaskState = s.driver.usbTaskState :=
    ⟨hkept.agrees hflag hdevice ht, ht.state⟩
  rw [running]
  refine wp_ite (fun hflag => ?_) fun hflag => ?_
  · rw [wp_bind]
    refine wp_mono (getDriverandReport_class c fuel h hpolled) fun device t ht => ?_
    have hkept : Kept { v with runningdebugflag := true, device := device } s.driver :=
      ⟨⟨m, h⟩, fun _ => ⟨hstate, by rw [hpolled.hidAddr]; exact ht.1⟩⟩
    exact hend hkept rfl rfl ht.2
  · have hkept : Kept v s.driver := ⟨⟨m, h⟩, fun htrue => ⟨hstate, hclass htrue⟩⟩
    refine wp_ite (fun _ => ?_) fun _ => wp_ite (fun _ => ?_) fun _ => ⟨hkept, rfl⟩
    · rw [kbdPoll, wp_bind]
      exact wp_mono (poll_agrees c fuel h hpolled) fun r t ht =>
        wp_ite (fun _ => hend hkept rfl rfl ht) fun _ => hend hkept rfl rfl ht
    · rw [mousePoll, wp_bind]
      exact wp_mono (poll_agrees c fuel h hpolled) fun r t ht =>
        wp_ite (fun _ => hend hkept rfl rfl ht) fun _ => hend hkept rfl rfl ht

theorem iteration_kept (hsignals : Signals c) (v : Locals) (h : Kept v s.driver) :
    wp Stop.Short (iteration c fuel v)
      (fun v' t => Kept v' t.driver ∧ Passed s.driver.usbTaskState t.driver.usbTaskState) s := by
  rw [iteration, wp_bind]
  refine wp_mono (max3421ETask_serviced c hsignals) fun _ t ht => ?_
  obtain ⟨m, hsound⟩ := h.sound
  have hsound' : Sound t.driver m := by
    rcases ht with ht | ⟨state, hstate, ht⟩
    · rwa [ht]
    · rw [ht]
      exact .of_interrupted (hsound.table.of_eq rfl) hstate
  have hfirst : t.driver.usbTaskState ∈ s.driver.usbTaskState :: interrupted s.driver.usbTaskState := by
    rcases ht with ht | ⟨state, hstate, ht⟩
    · rw [ht]
      exact List.mem_cons_self
    · rw [ht]
      exact List.mem_cons_of_mem _ hstate
  rw [wp_bind]
  refine wp_mono (usbTask_sound c fuel hsound') fun _ u hu => ?_
  obtain ⟨⟨m', hsound''⟩, hmem, hrunning⟩ := hu
  -- with the flag up, the device runs on untouched, or the task is elsewhere
  have hflag (htrue : v.runningdebugflag = true) : u.driver = s.driver ∨
      u.driver.usbTaskState ≠ usbStateRunning ∧ u.driver.usbTaskState ≠ usbStateError := by
    obtain ⟨hstate, -⟩ := h.polling htrue
    rcases ht with ht | ⟨state, hmem', ht⟩
    · exact .inl ((hrunning (ht ▸ hstate)).trans ht)
    · rw [hstate] at hmem'
      rw [ht] at hmem
      exact .inr (running_interrupted hmem' hmem)
  have hpassed {state : Byte} (hstate : state = u.driver.usbTaskState ∨ state ∈ sampled u.driver.usbTaskState) :
      Passed s.driver.usbTaskState state := ⟨_, hfirst, _, hmem, hstate⟩
  rw [wp_bind, wp_get]
  refine wp_ite (fun hstate => ?_) fun _ => wp_ite (fun herror => ?_) fun _ => ?_
  · refine wp_mono (running_kept c fuel v hsound'' hstate fun htrue => ?_) fun v' w hw => ⟨hw.1, hpassed (.inl hw.2)⟩
    rw [(hflag htrue).resolve_right fun hne => hne.1 hstate]
    exact (h.polling htrue).2
  · have hkept : Kept v u.driver := by
      refine ⟨⟨m', hsound''⟩, fun htrue => ?_⟩
      rw [(hflag htrue).resolve_right fun hne => hne.2 herror]
      exact h.polling htrue
    exact wp_ite (fun _ => ⟨hkept, hpassed (.inl rfl)⟩) fun _ => ⟨hkept.agrees rfl rfl (.refl _), hpassed (.inl rfl)⟩
  · exact wp_mono (notRunning_kept c fuel v hsound'') fun v' w hw => ⟨hw.1, hpassed hw.2⟩

theorem main_zero_kept (v : Locals) :
    wp Stop.Short (main c fuel v 0) (fun v' t => Kept v' t.driver ∧ ∃ state, t.driver.usbTaskState ∈ sampled state) s := by
  rw [main, wp_bind]
  refine wp_mono (max3421EInit_sampled c fuel) fun _ t ht => ?_
  obtain ⟨state, hstate, ht⟩ := ht
  rw [wp_bind]
  refine wp_mono (usbInit_sound hstate ht) fun _ u hu => ?_
  exact ⟨.of_table rfl hu.1, s.driver.usbTaskState, hu.2 ▸ hstate⟩

theorem main_succ (v : Locals) (n : Nat) : main c fuel v (n + 1) = main c fuel v n >>= iteration c fuel := by
  simp only [main, iterations, bind_assoc]

theorem main_kept (hsignals : Signals c) (v : Locals) (n : Nat) :
    wp Stop.Short (main c fuel v n) (fun v' t => Kept v' t.driver) s := by
  induction n with
  | zero => exact wp_mono (main_zero_kept c fuel v) fun _ _ ht => ht.1
  | succ n ih =>
      rw [main_succ, wp_bind]
      exact wp_mono ih fun v' t ht => wp_mono (iteration_kept c fuel hsignals v' ht) fun _ _ hu => hu.1

/-- The state of the task after `n` passes of a run. -/
def At (v : Locals) (s : System σ) (n : Nat) (state : Byte) : Prop :=
  ∃ v' t, main c fuel v n s = .ok (v', t) ∧ t.driver.usbTaskState = state

end Main

/-- A mouse that is there from the start and answers everything at once, always
with as many bytes of its configuration as it was asked for. -/
def mouse : Chip (DWord × Byte) where
  regWr _ _ s := s
  regRd reg s := (if reg = rHRSL then bmJSTATUS else if reg = rRCVBC then s.2 else if reg = rHCTL then 0 else 0xff, s)
  bytesWr _ data s := (s.1, data.getD 6 0)
  bytesRd _ _ s := (.ofFn fun i => [8, 4, 16, 0, 0, 3, 1, 2, 7, 5, 0x81, 3, 8, 0, 10, 0].getD i 0, s)
  usbRst _ s := s
  irq s := (false, s)
  gpx s := (false, s)
  nticks s := (s.1, s.1 + 250, s.2)
  ticksPerSecond := 1000
  stale s := (fun _ => 0, s)

theorem signals_mouse : Signals mouse := fun _ h => absurd h Bool.false_ne_true

def startLocals : Locals := ⟨false, false, 0, fun _ => 0, fun _ => 0, ⟨0, 0, 0⟩⟩

theorem at_of_eval {σ : Type} {c : Chip σ} {fuel : Nat} {v : Locals} {s : System σ} {n : Nat} {state : Byte}
    (h : (main c fuel v n s).toOption.any fun r => r.2.driver.usbTaskState = state) : At c fuel v s n state := by
  obtain ⟨v', t, hrun, hstate⟩ := run_of_any h
  exact ⟨v', t, hrun, of_decide_eq_true hstate⟩

theorem mouse_running : At mouse 4 startLocals ⟨(0, 0), .initial⟩ 10 usbStateRunning := at_of_eval (by decide +kernel)

/-- As long as what the devices send fits into its buffers, the host never uses a NULL
pointer or an entry that a table does not have. In every state the table has the
devices 0 to m, and a device is only polled when it is the last of them, by the class
it was found to have. -/
theorem host_safe {σ : Type} (c : Chip σ) (hsignals : Signals c) (fuel n : Nat) (v : Locals) (s : System σ) :
    (∀ fault, main c fuel v n s ≠ .error (.error fault)) ∧
      ∀ v' t, main c fuel v n s = .ok (v', t) →
        (∃ m, Sound t.driver m) ∧ (v'.runningdebugflag = true → t.driver.usbTaskState = usbStateRunning ∧
          v'.device = (t.driver.devtable t.driver.hidAddr.toNat).devclass) := by
  obtain ⟨hfault, hok⟩ := wp_short_iff.mp (main_kept c fuel hsignals v n (s := s))
  exact ⟨hfault, fun v' t hrun => ⟨(hok v' t hrun).sound, (hok v' t hrun).polling⟩⟩

theorem host_safe_mouse :
    ∃ v t, main mouse 4 startLocals 10 ⟨(0, 0), .initial⟩ = .ok (v, t) ∧ ∃ m, Sound t.driver m := by
  obtain ⟨v, t, hrun, -⟩ := mouse_running
  exact ⟨v, t, hrun, ((host_safe mouse signals_mouse 4 10 startLocals ⟨(0, 0), .initial⟩).2 v t hrun).1⟩

section Runs

variable {σ : Type} {c : Chip σ} {fuel : Nat} {v : Locals} {s : System σ}

theorem At.zero {state : Byte} (h : At c fuel v s 0 state) : ¬Late state := by
  obtain ⟨v', t, hrun, rfl⟩ := h
  obtain ⟨-, state, hstate⟩ := wp_ok (main_zero_kept c fuel v) hrun
  exact (not_late_of_interrupted (sampled_interrupted hstate)).1

theorem At.succ (hsignals : Signals c) {n : Nat} {state' : Byte} (h : At c fuel v s (n + 1) state')
    (hlate : Late state') : ∃ state ∈ taskStates, At c fuel v s n state ∧ state' ∈ successors state := by
  obtain ⟨v'', u, hrun, rfl⟩ := h
  rw [main_succ] at hrun
  obtain ⟨v', t, hrun', hpass⟩ := bind_ok hrun
  have hkept := wp_ok (main_kept c fuel hsignals v n) hrun'
  obtain ⟨-, hpassed⟩ := wp_ok (iteration_kept c fuel hsignals v' hkept) hpass
  obtain ⟨m, hsound⟩ := hkept.sound
  exact ⟨t.driver.usbTaskState, hsound.state, ⟨v', t, hrun', rfl⟩, hpassed.late hlate⟩

theorem before_addressing : ∀ x ∈ taskStates, usbStateAddressing ∈ successors x →
    x = attachedGetDeviceDescriptorSize := by decide

theorem before_configuring : ∀ x ∈ taskStates, usbStateConfiguring ∈ successors x → x = usbStateAddressing := by
  decide

theorem before_running : ∀ x ∈ taskStates, usbStateRunning ∈ successors x →
    x = usbStateRunning ∨ x = usbStateConfiguring := by decide

theorem At.addressing (hsignals : Signals c) {n : Nat} (h : At c fuel v s n usbStateAddressing) :
    ∃ k, n = k + 1 ∧ At c fuel v s k attachedGetDeviceDescriptorSize := by
  cases n with
  | zero => exact absurd (.inl rfl) h.zero
  | succ k =>
      obtain ⟨x, hx, hat, hnext⟩ := h.succ hsignals (.inl rfl)
      exact ⟨k, rfl, before_addressing x hx hnext ▸ hat⟩

theorem At.configuring (hsignals : Signals c) {n : Nat} (h : At c fuel v s n usbStateConfiguring) :
    ∃ k, n = k + 1 ∧ At c fuel v s k usbStateAddressing := by
  cases n with
  | zero => exact absurd (.inr (.inl rfl)) h.zero
  | succ k =>
      obtain ⟨x, hx, hat, hnext⟩ := h.succ hsignals (.inr (.inl rfl))
      exact ⟨k, rfl, before_configuring x hx hnext ▸ hat⟩

end Runs

/-- A device runs only when it has been enumerated in successive passes, and runs
without a break since. -/
theorem running_enumerated {σ : Type} (c : Chip σ) (hsignals : Signals c) (fuel : Nat) (v : Locals) (s : System σ)
    (n : Nat) (h : At c fuel v s n usbStateRunning) :
    ∃ k, k + 3 ≤ n ∧ At c fuel v s k attachedGetDeviceDescriptorSize ∧ At c fuel v s (k + 1) usbStateAddressing ∧
      At c fuel v s (k + 2) usbStateConfiguring ∧ ∀ j, k + 3 ≤ j → j ≤ n → At c fuel v s j usbStateRunning := by
  induction n with
  | zero => exact absurd (.inr (.inr rfl)) h.zero
  | succ n ih =>
      obtain ⟨x, hx, hat, hnext⟩ := h.succ hsignals (.inr (.inr rfl))
      rcases before_running x hx hnext with rfl | rfl
      · obtain ⟨k, hk, hdescriptor, haddressing, hconfiguring, hrunning⟩ := ih hat
        refine ⟨k, Nat.le_succ_of_le hk, hdescriptor, haddressing, hconfiguring, fun j hj hle => ?_⟩
        rcases Nat.le_succ_iff.mp hle with hle | rfl
        · exact hrunning j hj hle
        · exact h
      · obtain ⟨i, rfl, haddressing⟩ := hat.configuring hsignals
        obtain ⟨k, rfl, hdescriptor⟩ := haddressing.addressing hsignals
        refine ⟨k, Nat.le_refl _, hdescriptor, haddressing, hat, fun j hj hle => ?_⟩
        rwa [Nat.le_antisymm hle hj]

theorem running_enumerated_mouse :
    ∃ k, k + 3 ≤ 10 ∧ At mouse 4 startLocals ⟨(0, 0), .initial⟩ (k + 2) usbStateConfiguring := by
  obtain ⟨k, hk, -, -, hconfiguring, -⟩ :=
    running_enumerated mouse signals_mouse 4 startLocals ⟨(0, 0), .initial⟩ 10 mouse_running
  exact ⟨k, hk, hconfiguring⟩

end ECE385.UsbHost.Safety
