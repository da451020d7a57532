import ECE385.UsbHost.Transfer

namespace ECE385.UsbHost.Dispatch

open MAX3421E Records Transfer
open Imperative.Program

def Retried (code : Byte) : Prop := code = hrNAK ∨ code = hrTIMEOUT

def limit (code : Byte) : Nat := if code = hrNAK then 200 else 3

def count (code : Byte) (answers : List Byte) : Nat := answers.countP fun hrsl => hrsl &&& 0x0f = code

def attempts (packet : Byte) (answers : List Byte) : List Transaction :=
  answers.flatMap fun hrsl => [.launch packet, .result hrsl]

structure Retries (answers : List Byte) : Prop where
  retried : ∀ hrsl ∈ answers, Retried (hrsl &&& 0x0f)
  within : ∀ code, Retried code → count code answers < limit code

/-- The transactions of one dispatched packet, with its result code: either the
deadline passes after the last launch, or its answer ends the retries. -/
inductive Dispatched (packet : Byte) : List Transaction → Byte → Prop
  | late (answers : List Byte) (h : Retries answers) :
      Dispatched packet (attempts packet answers ++ [.launch packet]) 0xff
  | answered (answers : List Byte) (hrsl : Byte) (h : Retries answers)
      (hlast : Retried (hrsl &&& 0x0f) → count (hrsl &&& 0x0f) (answers ++ [hrsl]) = limit (hrsl &&& 0x0f)) :
      Dispatched packet (attempts packet (answers ++ [hrsl])) (hrsl &&& 0x0f)

def launched (log : List Transaction) : List Byte :=
  log.filterMap fun
    | .launch packet => some packet
    | _ => none

def results (log : List Transaction) : List Byte :=
  log.filterMap fun
    | .result hrsl => some hrsl
    | _ => none

theorem launched_attempts (packet : Byte) (answers : List Byte) :
    launched (attempts packet answers) = List.replicate answers.length packet := by
  induction answers with
  | nil => rfl
  | cons hrsl answers ih => exact congrArg (packet :: ·) ih

theorem results_attempts (packet : Byte) (answers : List Byte) : results (attempts packet answers) = answers := by
  induction answers with
  | nil => rfl
  | cons hrsl answers ih => exact congrArg (hrsl :: ·) ih

theorem attempts_snoc (packet : Byte) (answers : List Byte) (hrsl : Byte) :
    attempts packet (answers ++ [hrsl]) = attempts packet answers ++ [.launch packet, .result hrsl] :=
  List.flatMap_append

theorem count_snoc (code : Byte) (answers : List Byte) (hrsl : Byte) :
    count code (answers ++ [hrsl]) = count code answers + if hrsl &&& 0x0f = code then 1 else 0 := by
  simp [count, List.countP_append, List.countP_singleton]

theorem count_self {code : Byte} {answers : List Byte} {hrsl : Byte} (hcode : hrsl &&& 0x0f = code) :
    count code (answers ++ [hrsl]) = count code answers + 1 := by
  rw [count_snoc, if_pos hcode]

theorem count_other {code : Byte} {answers : List Byte} {hrsl : Byte} (hcode : hrsl &&& 0x0f ≠ code) :
    count code (answers ++ [hrsl]) = count code answers := by
  rw [count_snoc, if_neg hcode, Nat.add_zero]

theorem Retries.nil : Retries [] := by
  refine ⟨fun _ h => absurd h List.not_mem_nil, fun code hcode => ?_⟩
  rcases hcode with rfl | rfl <;> decide

theorem Retries.snoc {answers : List Byte} {hrsl : Byte} (h : Retries answers) (hretried : Retried (hrsl &&& 0x0f))
    (hcount : count (hrsl &&& 0x0f) (answers ++ [hrsl]) < limit (hrsl &&& 0x0f)) : Retries (answers ++ [hrsl]) := by
  refine ⟨fun v hv => ?_, fun code hcode => ?_⟩
  · rcases List.mem_append.mp hv with hv | hv
    · exact h.retried v hv
    · rw [List.mem_singleton.mp hv]
      exact hretried
  · by_cases heq : hrsl &&& 0x0f = code
    · rwa [← heq]
    · rw [count_other heq]
      exact h.within code hcode

theorem Retries.more {answers : List Byte} {hrsl code : Byte} (h : Retries answers) (hretried : Retried code)
    (hcode : hrsl &&& 0x0f = code) (hfull : count code answers + 1 ≠ limit code) : Retries (answers ++ [hrsl]) := by
  subst hcode
  refine h.snoc hretried ?_
  rw [count_self rfl]
  exact Nat.lt_of_le_of_ne (h.within _ hretried) hfull

/-- A counter of eight bits holds what it counts, as it stays below its limit. -/
theorem Retries.counts {answers : List Byte} {code n : Byte} (h : Retries answers) (hcode : Retried code)
    (hcount : n.toNat = count code answers) : (n + 1).toNat = count code answers + 1 := by
  have hlt := h.within code hcode
  have hle : limit code ≤ 200 := by
    rcases hcode with rfl | rfl <;> decide
  rw [BitVec.toNat_add, hcount]
  exact Nat.mod_eq_of_lt (Nat.lt_of_le_of_lt (Nat.succ_le_of_lt (Nat.lt_of_lt_of_le hlt hle)) (by decide))

theorem Retries.length {answers : List Byte} (h : Retries answers) :
    answers.length = count hrNAK answers + count hrTIMEOUT answers := by
  obtain ⟨hretried, -⟩ := h
  induction answers with
  | nil => rfl
  | cons hrsl answers ih =>
      have hne : hrNAK ≠ hrTIMEOUT := by decide
      have hlength := ih fun v hv => hretried v (List.mem_cons_of_mem _ hv)
      rw [count, count, List.countP_cons, List.countP_cons, List.length_cons, hlength, count, count]
      rcases hretried hrsl List.mem_cons_self with h | h
      · simp only [h, hne, decide_true, decide_false, if_true, Bool.false_eq_true, if_false]
        omega
      · simp only [h, hne.symm, decide_true, decide_false, if_true, Bool.false_eq_true, if_false]
        omega

theorem Retries.length_le {answers : List Byte} (h : Retries answers) : answers.length ≤ 201 := by
  have hnaks : count hrNAK answers < 200 := h.within hrNAK (.inl rfl)
  have htimeouts : count hrTIMEOUT answers < 3 := h.within hrTIMEOUT (.inr rfl)
  rw [h.length]
  omega

section Dispatched

variable {packet rcode : Byte} {log : List Transaction} (h : Dispatched packet log rcode)

include h

theorem Dispatched.launched : ∃ n, n ≤ 202 ∧ launched log = List.replicate n packet := by
  cases h with
  | late answers h =>
      refine ⟨answers.length + 1, Nat.succ_le_succ h.length_le, ?_⟩
      rw [Dispatch.launched, List.filterMap_append]
      exact (congrArg (· ++ [packet]) (launched_attempts packet answers)).trans List.replicate_succ'.symm
  | answered answers hrsl h =>
      refine ⟨(answers ++ [hrsl]).length, ?_, launched_attempts packet _⟩
      rw [List.length_append, List.length_singleton]
      exact Nat.succ_le_succ h.length_le

/-- A code that asks for another launch is only returned when it has come in as
often as it may. -/
theorem Dispatched.gives_up_iff {code : Byte} (hcode : Retried code) :
    rcode = code ↔ count code (results log) = limit code := by
  cases h with
  | late answers h =>
      have hlt := h.within code hcode
      have hne : (0xff : Byte) ≠ code := by
        rcases hcode with rfl | rfl <;> decide
      have hresults : results (attempts packet answers ++ [.launch packet]) = answers := by
        rw [results, List.filterMap_append]
        exact (List.append_nil _).trans (results_attempts packet answers)
      rw [hresults]
      exact ⟨fun heq => absurd heq hne, fun heq => absurd heq (Nat.ne_of_lt hlt)⟩
  | answered answers hrsl h hlast =>
      rw [results_attempts]
      constructor
      · rintro rfl
        exact hlast hcode
      · intro hfull
        by_contra hne
        rw [count_other hne] at hfull
        exact absurd hfull (Nat.ne_of_lt (h.within code hcode))

end Dispatched

section Driver

variable {σ : Type} (c : Chip σ) (fuel : Nat) {F : Stop Fault → Prop} (hF : F .fuel)

include hF in
theorem waitDone_quiet (timeout : DWord) (s : System (σ × List Transaction)) :
    wp F (waitDone c.logged fuel timeout) (fun _ t => t.driver = s.driver ∧ t.chip.2 = s.chip.2) s := by
  refine wp_loop (fun _ t => t.driver = s.driver ∧ t.chip.2 = s.chip.2) (fun _ t ht => ?_) fuel hF ⟨rfl, rfl⟩
  rw [wp_bind, wp_milliseconds]
  refine wp_ite (fun _ => ?_) fun _ => ht
  rw [wp_bind, wp_regRd]
  exact wp_ite (fun _ => ht) fun _ => ht

/-- After `answers` the counters hold what they counted, and the loop goes on. -/
structure Retrying (packet : Byte) (s : System (σ × List Transaction)) (counts : Byte × Byte)
    (t : System (σ × List Transaction)) (answers : List Byte) : Prop where
  driver : t.driver = s.driver
  log : t.chip.2 = s.chip.2 ++ attempts packet answers
  retries : Retries answers
  naks : counts.1.toNat = count hrNAK answers
  timeouts : counts.2.toNat = count hrTIMEOUT answers

def Done (packet : Byte) (s : System (σ × List Transaction)) (rcode : Byte)
    (t : System (σ × List Transaction)) : Prop :=
  t.driver = s.driver ∧ ∃ log, t.chip.2 = s.chip.2 ++ log ∧ Dispatched packet log rcode

include hF in
theorem launch_done (timeout : DWord) (token ep : Byte) {s t : System (σ × List Transaction)}
    {counts : Byte × Byte} {answers : List Byte} (h : Retrying (token ||| ep) s counts t answers) :
    wp F (launch c.logged fuel timeout token ep counts)
      (Passes (fun counts' t' => ∃ hrsl, Retrying (token ||| ep) s counts' t' (answers ++ [hrsl]))
        (Done (token ||| ep) s)) t := by
  rw [launch, wp_bind, wp_regWr, wp_bind]
  refine wp_mono (waitDone_quiet c fuel hF timeout _) fun done u hu => ?_
  obtain ⟨hdriver, hlog⟩ := hu
  have hlaunched : u.chip.2 = s.chip.2 ++ (attempts (token ||| ep) answers ++ [.launch (token ||| ep)]) := by
    rw [hlog, ← List.append_assoc, ← h.log]
    rfl
  refine wp_ite (fun _ => ?_) fun _ => ⟨hdriver.trans h.driver, _, hlaunched, .late answers h.retries⟩
  rw [wp_bind, wp_regRd]
  generalize hread : c.logged.regRd rHRSL u.chip = r
  obtain ⟨hrsl, chip⟩ := r
  have hread' : chip.2 = u.chip.2 ++ [.result hrsl] := by
    obtain ⟨rfl, rfl⟩ := Prod.mk.inj hread
    rfl
  have hlogged : chip.2 = s.chip.2 ++ attempts (token ||| ep) (answers ++ [hrsl]) := by
    rw [hread', hlaunched, attempts_snoc]
    simp only [List.append_assoc, List.cons_append, List.nil_append]
  have hdone (hlast : Retried (hrsl &&& 0x0f) → count (hrsl &&& 0x0f) (answers ++ [hrsl]) = limit (hrsl &&& 0x0f)) :
      Done (token ||| ep) s (hrsl &&& 0x0f) { u with chip := chip } :=
    ⟨hdriver.trans h.driver, _, hlogged, .answered answers hrsl h.retries hlast⟩
  have hne : hrNAK ≠ hrTIMEOUT := by decide
  refine wp_ite (fun hnak => ?_) fun hnak => ?_
  · replace hnak : hrsl &&& 0x0f = hrNAK := hnak
    have hcount := h.retries.counts (.inl rfl) h.naks
    refine wp_ite (fun hfull => hdone fun _ => ?_) fun hfull => ?_
    · rw [hnak, count_self hnak, ← hcount, hfull]
      rfl
    · refine ⟨hrsl, hdriver.trans h.driver, hlogged, h.retries.more (.inl rfl) hnak fun heq => hfull ?_,
        hcount.trans (count_self hnak).symm, h.timeouts.trans (count_other (hnak ▸ hne)).symm⟩
      exact BitVec.eq_of_toNat_eq (hcount.trans heq)
  refine wp_ite (fun htimeout => ?_) fun htimeout => hdone fun hretried => ?_
  · replace htimeout : hrsl &&& 0x0f = hrTIMEOUT := htimeout
    have hcount := h.retries.counts (.inr rfl) h.timeouts
    refine wp_ite (fun hfull => hdone fun _ => ?_) fun hfull => ?_
    · rw [htimeout, count_self htimeout, ← hcount, hfull]
      rfl
    · refine ⟨hrsl, hdriver.trans h.driver, hlogged, h.retries.more (.inr rfl) htimeout fun heq => hfull ?_,
        h.naks.trans (count_other (htimeout ▸ hne.symm)).symm, hcount.trans (count_self htimeout).symm⟩
      exact BitVec.eq_of_toNat_eq (hcount.trans heq)
  · exact absurd hretried (not_or.mpr ⟨hnak, htimeout⟩)

include hF in
theorem xferDispatchPkt_done (token ep : Byte) (s : System (σ × List Transaction)) :
    wp F (xferDispatchPkt c.logged fuel token ep) (Done (token ||| ep) s) s := by
  rw [xferDispatchPkt, wp_bind, wp_milliseconds]
  refine wp_loop (fun counts t => ∃ answers, Retrying (token ||| ep) s counts t answers)
    (fun counts t ht => ?_) fuel hF ?_
  · obtain ⟨answers, ht⟩ := ht
    refine wp_mono (launch_done c fuel hF _ token ep ht) fun r u hu => ?_
    cases r with
    | inl counts' =>
        obtain ⟨hrsl, hu⟩ := hu
        exact ⟨_, hu⟩
    | inr rcode => exact hu
  · exact ⟨[], rfl, (List.append_nil _).symm, .nil, rfl, rfl⟩

/-- Every wait for this deadline ends: the chip answers, or the clock gets there
before the polls run out. -/
def Waits (timeout : DWord) : Prop := ∀ s, wp Stop.Never (waitDone c fuel timeout) (fun _ _ => True) s

def deadline (chip : σ) : DWord := (c.nticks chip).1 * 1000 / c.ticksPerSecond + usbXferTimeout

variable {c fuel}

theorem Waits.logged {timeout : DWord} (h : Waits c fuel timeout) : Waits c.logged fuel timeout := by
  rintro ⟨⟨chip, log⟩, driver⟩
  have hwait := h ⟨chip, driver⟩
  clear h
  unfold waitDone at hwait ⊢
  induction fuel generalizing chip with
  | zero =>
      rw [loop] at hwait
      exact hwait.elim
  | succ fuel ih =>
      rw [loop, wp_bind, wp_bind, wp_milliseconds] at hwait ⊢
      refine wp_ite (fun hnow => ?_) fun _ => trivial
      have hnow' : (c.nticks chip).1 * 1000 / c.ticksPerSecond < timeout := hnow
      rw [if_pos hnow', wp_bind, wp_regRd] at hwait
      rw [wp_bind, wp_regRd]
      refine wp_ite (fun _ => trivial) fun hpending => ?_
      have hpending' : ¬(c.regRd rHIRQ (c.nticks chip).2).1 &&& bmHXFRDNIRQ ≠ 0 := hpending
      rw [if_neg hpending'] at hwait
      exact ih _ hwait

theorem Waits.launch {timeout : DWord} (h : Waits c fuel timeout) (token ep : Byte) (counts : Byte × Byte)
    (s : System σ) : wp Stop.Never (launch c fuel timeout token ep counts) (fun _ _ => True) s := by
  rw [Transfer.launch, wp_bind, wp_regWr, wp_bind]
  refine wp_mono (h _) fun done t _ => wp_ite (fun _ => ?_) fun _ => trivial
  rw [wp_bind, wp_regRd]
  refine wp_ite (fun _ => wp_ite (fun _ => trivial) fun _ => trivial) fun _ => ?_
  exact wp_ite (fun _ => wp_ite (fun _ => trivial) fun _ => trivial) fun _ => trivial

def allowed (counts : Byte × Byte) : Nat := 202 - (counts.1.toNat + counts.2.toNat)

theorem xferDispatchPkt_total (hfuel : 202 < fuel) (token ep : Byte) {s : System (σ × List Transaction)}
    (h : Waits c fuel (deadline c s.chip.1)) :
    wp Stop.Never (xferDispatchPkt c.logged fuel token ep) (Done (token ||| ep) s) s := by
  refine wp_total (xferDispatchPkt_done c fuel (F := (· = .fuel)) rfl token ep s) ?_ (P := fun _ _ => True)
  rw [xferDispatchPkt, wp_bind, wp_milliseconds]
  refine wp_loop_measure (fun counts t => ∃ answers, Retrying (token ||| ep) s counts t answers) allowed
    (fun counts t ht => ?_) ⟨[], rfl, (List.append_nil _).symm, .nil, rfl, rfl⟩ hfuel
  obtain ⟨answers, ht⟩ := ht
  refine wp_mono (wp_total (launch_done c fuel (F := (· = .fuel)) rfl _ token ep ht)
    (h.logged.launch token ep counts t)) fun r u hu => ?_
  cases r with
  | inr rcode => trivial
  | inl counts' =>
      obtain ⟨hrsl, hu⟩ := hu
      refine ⟨⟨_, hu⟩, ?_⟩
      have hbefore := ht.retries.length
      have hafter := hu.retries.length
      have hlimit := hu.retries.length_le
      rw [List.length_append, List.length_singleton] at hafter hlimit
      rw [allowed, allowed, ht.naks, ht.timeouts, hu.naks, hu.timeouts]
      omega

end Driver

/-- A packet is launched at most 202 times, again only after a NAK or a bus
timeout, and given up after 200 NAKs, three timeouts or the deadline. -/
theorem dispatch_retries {σ : Type} (c : Chip σ) (fuel : Nat) (hfuel : 202 < fuel) (token ep : Byte)
    (s : System (σ × List Transaction)) (hwaits : Waits c fuel (deadline c s.chip.1)) :
    ∃ rcode t log, xferDispatchPkt c.logged fuel token ep s = .ok (rcode, t) ∧ t.driver = s.driver ∧
      t.chip.2 = s.chip.2 ++ log ∧ Dispatched (token ||| ep) log rcode ∧
      (∃ n, n ≤ 202 ∧ launched log = List.replicate n (token ||| ep)) ∧
      (rcode = hrNAK ↔ count hrNAK (results log) = 200) ∧
      (rcode = hrTIMEOUT ↔ count hrTIMEOUT (results log) = 3) := by
  obtain ⟨rcode, t, hrun, hdriver, log, hlog, h⟩ := wp_never_iff.mp (xferDispatchPkt_total hfuel token ep hwaits)
  exact ⟨rcode, t, log, hrun, hdriver, hlog, h, h.launched, h.gives_up_iff (.inl rfl),
    h.gives_up_iff (.inr rfl)⟩

/-- A chip whose registers always read the same. -/
def steady (value : Byte → Byte) : Chip Unit where
  regWr _ _ s := s
  regRd reg s := (value reg, s)
  bytesWr _ _ s := s
  bytesRd _ n s := (List.Vector.replicate n 0, s)
  usbRst _ s := s
  irq s := (false, s)
  gpx s := (false, s)
  nticks s := (0, s)
  ticksPerSecond := 1000
  stale s := (fun _ => 0, s)

/-- A chip that never has anything to say. Its clock has gone on by six seconds at
the second look. -/
def silent : Chip Bool where
  regWr _ _ s := s
  regRd _ s := (0, s)
  bytesWr _ _ s := s
  bytesRd _ n s := (List.Vector.replicate n 0, s)
  usbRst _ s := s
  irq s := (false, s)
  gpx s := (false, s)
  nticks s := (if s then 6000 else 0, true)
  ticksPerSecond := 1000
  stale s := (fun _ => 0, s)

theorem waits_steady {value : Byte → Byte} (h : value rHIRQ &&& bmHXFRDNIRQ ≠ 0) (fuel : Nat) (timeout : DWord) :
    Waits (steady value) (fuel + 1) timeout := by
  intro s
  rw [waitDone, loop, wp_bind, wp_bind, wp_milliseconds]
  refine wp_ite (fun _ => ?_) fun _ => trivial
  rw [wp_bind, wp_regRd]
  exact wp_ite (fun _ => trivial) fun hne => absurd h hne

theorem waits_of_clock {σ : Type} {c : Chip σ} {timeout : DWord}
    (h : ∀ chip, ¬(c.nticks (c.regRd rHIRQ (c.nticks chip).2).2).1 * 1000 / c.ticksPerSecond < timeout) (fuel : Nat) :
    Waits c (fuel + 2) timeout := by
  rintro ⟨chip, driver⟩
  rw [waitDone, loop, wp_bind, wp_bind, wp_milliseconds]
  refine wp_ite (fun _ => ?_) fun _ => trivial
  rw [wp_bind, wp_regRd]
  refine wp_ite (fun _ => trivial) fun _ => ?_
  rw [wp_pure]
  dsimp only
  rw [loop, wp_bind, wp_bind, wp_milliseconds]
  exact wp_ite (fun hnow => absurd hnow (h chip)) fun _ => trivial

/-- With a clock that stands still, what is ready and acknowledged is done at once. -/
theorem dispatch_acknowledged {σ : Type} {c : Chip σ}
    (hclock : ∀ chip, (c.nticks chip).1 = 0)
    (hready : ∀ chip, (c.regRd rHIRQ chip).1 &&& bmHXFRDNIRQ ≠ 0) (hack : ∀ chip, (c.regRd rHRSL chip).1 &&& 0x0f = 0)
    (fuel : Nat) (token ep : Byte) (s : System σ) :
    ∃ t, xferDispatchPkt c (fuel + 1) token ep s = .ok (0, t) := by
  suffices h : wp Stop.Never (xferDispatchPkt c (fuel + 1) token ep) (fun rcode _ => rcode = 0) s by
    obtain ⟨rcode, t, hrun, rfl⟩ := wp_never_iff.mp h
    exact ⟨t, hrun⟩
  have hsoon : (0 : DWord) < 0 + usbXferTimeout := by decide
  have hnow (chip : σ) : (c.nticks chip).1 * 1000 / c.ticksPerSecond = 0 := by
    simp [hclock]
  rw [xferDispatchPkt, wp_bind, wp_milliseconds, hnow, loop, wp_bind, Transfer.launch, wp_bind, wp_regWr, wp_bind,
    waitDone, loop, wp_bind, wp_bind, wp_milliseconds, hnow, if_pos hsoon, wp_bind, wp_regRd, if_pos (hready _), wp_bind,
    wp_regWr, wp_pure, wp_pure, if_pos rfl, wp_bind, wp_regRd]
  refine wp_ite (fun hnak => ?_) fun _ => wp_ite (fun htimeout => ?_) fun _ => hack _
  · exact absurd ((hack _).symm.trans hnak) (by decide)
  · exact absurd ((hack _).symm.trans htimeout) (by decide)

/-- A device that is never ready is given up, and so is a chip that never answers. -/
theorem dispatch_retries_busy :
    (∃ rcode t log,
      xferDispatchPkt (steady fun reg => if reg = rHRSL then hrNAK else 0xff).logged 203 tokIN 1
          ⟨((), []), .initial⟩ = .ok (rcode, t) ∧
        t.chip.2 = log ∧ Dispatched 1 log rcode) ∧
    ∃ rcode t log, xferDispatchPkt silent.logged 203 tokIN 1 ⟨(false, []), .initial⟩ = .ok (rcode, t) ∧
      t.chip.2 = log ∧ Dispatched 1 log rcode := by
  constructor
  · obtain ⟨rcode, t, log, hrun, -, hlog, h, -⟩ :=
      dispatch_retries (steady fun reg => if reg = rHRSL then hrNAK else 0xff) 203 (by decide) tokIN 1
        ⟨((), []), .initial⟩ (waits_steady (by decide) 202 _)
    exact ⟨rcode, t, log, hrun, hlog, h⟩
  · obtain ⟨rcode, t, log, hrun, -, hlog, h, -⟩ :=
      dispatch_retries silent 203 (by decide) tokIN 1 ⟨(false, []), .initial⟩
        (waits_of_clock (by decide) 201)
    exact ⟨rcode, t, log, hrun, hlog, h⟩

end ECE385.UsbHost.Dispatch
