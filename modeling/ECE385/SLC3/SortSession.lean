import ECE385.SLC3.Launch
import ECE385.SLC3.SortMenu

namespace ECE385.SLC3.SortSession

open Clocked.Machine (run run_zero run_add run_succ)
open Execution
open Isa (Word)
open Launch (Launched Pauses launched_ready ready switches)
open Multiplication (pressing)
open Refinement (arch)
open SortFunction (words)
open SortMenu
open SortProgram (Loaded)
open SramTop (State Inputs)

def tables (selections : Nat → BitVec 10 × List Word) (i : Nat) : List Word :=
  run (fun c t => select c.1 c.2 t) selections Instantiateram.sortData i

theorem tables_succ (selections : Nat → BitVec 10 × List Word) (i : Nat) : tables selections (i + 1) =
    select (selections i).1 (selections i).2 (tables selections i) := run_succ ..

/-- The selection read at the `i`-th visit of the menu, with the words that the
entry function reads if it is called. -/
def selections (y : Nat → Switches) (menu : Nat → Nat) (i : Nat) : BitVec 10 × List Word :=
  ((y (menu i + 1)).2, entered fun j => y (menu i + j))

structure Visited (y : Nat → Switches) (a : Isa.State) (menu : Nat → Nat) (i : Nat) : Prop where
  table : words 74 (run next y a (menu i)).mem = tables (selections y menu) i
  later : menu i < menu (i + 1) ∧ menu (i + 1) ≤ menu i + 3300
  asks : (selections y menu i).1 = 1 → ∀ j, j < 16 → EntryFunction.Asks j (run next y a (menu i + (8 * j + 8)))
  shows : (selections y menu i).1 = 3 → ∀ j, j < 16 →
    ∃ k, DisplayFunction.Shows k (fun j => (tables (selections y menu) i).getD j 0) j (run next y a (menu i + (9 * j + 21)))

theorem exists_visited {a : Isa.State} (y : Nat → Switches) (hpc : a.pc = 90) (hloaded : Loaded 0 a.mem)
    (htable : words 74 a.mem = Instantiateram.sortData) :
    ∃ menu, menu 0 = 4 ∧ (∀ n, (run next y a n).pc = 94 ↔ ∃ i, menu i = n) ∧ ∀ i, Visited y a menu i := by
  have hall : Instantiateram.sortData.all (fun v => decide (v.toNat ≤ 0x3ff)) = true := by decide
  have hsmall : ∀ v ∈ Instantiateram.sortData, v.toNat ≤ 0x3ff := fun v hv =>
    of_decide_eq_true (List.all_eq_true.mp hall v hv)
  obtain ⟨hbefore, hfirst⟩ := start_home y hpc hloaded htable hsmall
  obtain ⟨menu, hstart, hmenu⟩ := Clocked.Progress.exists_visits
    (P := fun n => ∃ k t, Home k t (run next y a n))
    (Q := fun n d => ∃ k, Visit k (words 74 (run next y a n).mem) (fun j => y (n + j)) (run next y a n) d)
    ⟨0, _, hfirst⟩ fun n ⟨k, t, hhome⟩ => by
      obtain ⟨d, hvisit⟩ := exists_visit (fun j => y (n + j)) hhome
      obtain ⟨l, hnext⟩ := hvisit.home
      rw [← run_add] at hnext
      exact ⟨d, ⟨k, hhome.table ▸ hvisit⟩, l, _, hnext⟩
  have hvisit (i : Nat) : ∃ d k, menu (i + 1) = menu i + d ∧
      Visit k (words 74 (run next y a (menu i)).mem) (fun j => y (menu i + j)) (run next y a (menu i)) d := by
    obtain ⟨-, d, hnext, k, hvisit⟩ := hmenu i
    exact ⟨d, k, hnext, hvisit⟩
  have htables (i : Nat) : words 74 (run next y a (menu i)).mem = tables (selections y menu) i := by
    induction i with
    | zero =>
        rw [hstart]
        exact hfirst.table
    | succ i ih =>
        obtain ⟨d, k, hnext, hvisit⟩ := hvisit i
        obtain ⟨l, hhome⟩ := hvisit.home
        have htable' := hhome.table
        rw [← run_add, ← hnext, ih] at htable'
        rw [htable', tables_succ]
        rfl
  have hcomplete (n : Nat) : (run next y a n).pc = line 90 4 ↔ ∃ i, menu i = n := by
    refine Clocked.Progress.visits_complete (P := fun b : Isa.State => b.pc = line 90 4) (hstart ▸ hbefore) (fun i => ?_)
      (fun i => ?_) n
    · obtain ⟨⟨_, _, hhome⟩, -⟩ := hmenu i
      exact hhome.pc
    · obtain ⟨d, k, hnext, hvisit⟩ := hvisit i
      exact ⟨d, hnext, hvisit.returns⟩
  refine ⟨menu, hstart, hcomplete, fun i => ?_⟩
  obtain ⟨d, k, hnext, hvisit⟩ := hvisit i
  refine ⟨htables i, ?_, fun hone j hj => ?_, fun hthree j hj => ⟨k, ?_⟩⟩
  · have hpos := hvisit.returns.pos
    have hbound := hvisit.bound
    omega
  · rw [run_add]
    exact hvisit.asks hone j hj
  · rw [run_add, ← htables i]
    exact hvisit.shows hthree j hj

section Image

variable {base : Nat} {mem : BitVec 10 → Word}

theorem image_append {xs ys : List Word} (h : Image (xs ++ ys) base mem) :
    Image xs base mem ∧ Image ys (base + xs.length) mem := by
  refine ⟨fun k v hv => ?_, fun k v hv => ?_⟩
  · have hk := (List.getElem?_eq_some_iff.mp hv).1
    exact h k v ((List.getElem?_append_left hk).trans hv)
  · rw [Nat.add_assoc]
    refine h (xs.length + k) v ?_
    rwa [List.getElem?_append_right (Nat.le_add_right ..), Nat.add_sub_cancel_left]

theorem image_words (h : Image Instantiateram.sortData 74 mem) : words 74 mem = Instantiateram.sortData := by
  refine List.ext_getElem rfl fun k hk hk' => ?_
  simp only [words, List.getElem_map, List.getElem_range]
  exact h k _ (List.getElem?_eq_getElem hk')

def image : List Word :=
  Instantiateram.sortData ++ (Instantiateram.sortMenu ++ (Instantiateram.entryFunction ++
    (Instantiateram.sortFunction ++ Instantiateram.displayFunction)))

theorem loaded_of_image (h : Image image 74 mem) : Loaded 0 mem ∧ words 74 mem = Instantiateram.sortData := by
  obtain ⟨hdata, h⟩ := image_append h
  obtain ⟨hmenu, h⟩ := image_append h
  obtain ⟨hentry, h⟩ := image_append h
  obtain ⟨hsort, hdisplay⟩ := image_append h
  exact ⟨⟨hmenu, hentry, hsort, hdisplay, by decide⟩, image_words hdata⟩

end Image

section Session

variable {x : Nat → Inputs} {s : State} {T : Nat → Nat} {count : Nat}

/-- The program at its menu again and again, with every visit counted. The table
is what the selections have made of the data, and the functions called show what
they should. -/
structure Session (x : Nat → Inputs) (s : State) (T : Nat → Nat) (count : Nat) (menu : Nat → Nat) : Prop where
  start : menu 0 = 4
  later : ∀ i, menu i < menu (i + 1) ∧ menu (i + 1) ≤ menu i + 3300
  visits : ∀ k, k ≤ count → ((arch (SramTop.run x s (T k))).pc = 94 ↔ ∃ i, menu i = k)
  table : ∀ i, menu i ≤ count →
    words 74 (arch (SramTop.run x s (T (menu i)))).mem = tables (selections (switches x T) menu) i
  asks : ∀ i j, (selections (switches x T) menu i).1 = 1 → j < 16 → menu i + (8 * j + 8) ≤ count →
    Pauses x s T (menu i + (8 * j + 8)) 111 (BitVec.ofNat 16 j)
  shows : ∀ i j, (selections (switches x T) menu i).1 = 3 → j < 16 → menu i + (9 * j + 21) ≤ count →
    Pauses x s T (menu i + (9 * j + 21)) 148 ((tables (selections (switches x T) menu) i).getD j 0)

end Session

/-- In every run of the sort program the table at the menu is what the selections
have made of the data: entered anew, sorted or left alone. -/
theorem sort_program_session (x : Nat → Inputs) (s : State) (T : Nat → Nat) (count : Nat) (h : Launched x s T count)
    (hpc : (arch (SramTop.run x s (T 0))).pc = 90) (himage : Image image 74 (arch (SramTop.run x s (T 0))).mem) :
    ∃ menu, Session x s T count menu := by
  obtain ⟨hloaded, htable⟩ := loaded_of_image himage
  obtain ⟨menu, hstart, hvisits, hvisited⟩ := exists_visited (switches x T) hpc hloaded htable
  refine ⟨menu, hstart, fun i => (hvisited i).later, fun k hk => ?_, fun i hi => ?_, fun i j hone hj hle => ?_,
    fun i j hthree hj hle => ?_⟩
  · rw [h.arch_at hk]
    exact hvisits k
  · rw [h.arch_at hi]
    exact (hvisited i).table
  · have hasks := (hvisited i).asks hone j hj
    exact h.pauses hle (h.arch_at hle) hasks.pc hasks.hex hasks.paused
  · obtain ⟨k, hshows⟩ := (hvisited i).shows hthree j hj
    exact h.pauses hle (h.arch_at hle) hshows.pc hshows.hex hshows.paused

theorem sort_program_session_two :
    ∃ n, words 74 (arch (SramTop.run (pressing 2) (ready 90) n)).mem = ascending Instantiateram.sortData := by
  obtain ⟨T, hT, hlaunched⟩ := launched_ready (fun _ => 2) 90
  have himage : Image image 74 (ready 90).ram.mem := .of_eq (by decide +kernel)
  have hstart : SramTop.run (pressing 2) (ready 90) (T 0) = ready 90 := by
    rw [hT]
    rfl
  obtain ⟨menu, hsession⟩ := sort_program_session (pressing 2) (ready 90) T 3304 (hlaunched 3304) (by rw [hstart]; rfl)
    (by rw [hstart]; exact himage)
  have hlater := (hsession.later 0).2
  rw [hsession.start] at hlater
  exact ⟨_, hsession.table 1 hlater⟩

end ECE385.SLC3.SortSession
