import ECE385.SLC3.SortFunction
import ECE385.SLC3.Stepping

namespace ECE385.SLC3.SortProgram

open Clocked.Machine (run run_invariant)
open Execution
open Isa (Instr Reg Word)
open SortFunction (words)
open Stepping

section Signed

/-- Some condition code is set, so that an unconditional branch is taken. -/
def Signed (a : Isa.State) : Prop := 0b111#3 &&& a.nzp ≠ 0

theorem signed_exec {sw : BitVec 10} {a : Isa.State} (h : Signed a) (i : Instr) : Signed (i.exec sw a) := by
  cases i with
  | add | and | not | ldr => exact conditionCodes_taken _
  | br condition offset =>
      rw [Instr.exec]
      split
      · exact h
      · exact h
  | _ => exact h

theorem signed_run {a : Isa.State} (y : Nat → Switches) (h : Signed a) (n : Nat) : Signed (run next y a n) :=
  run_invariant (fun _ => Signed) h (fun _ t ht => signed_exec (a := { t with pc := t.pc + 1 }) ht _) n

end Signed

/-- The word of the display function's checkpoint after `k` changes. -/
def displayWord (k : Nat) : Word := BitVec.ofNat 16 (0xd802 + 16 * k)

def displayWords (k : Nat) : List Word := Instantiateram.displayFunction.set 11 (displayWord k)

/-- The program in memory, its display function after `k` changes. -/
structure Loaded (k : Nat) (mem : BitVec 10 → Word) : Prop where
  menu : Image Instantiateram.sortMenu 90 mem
  entry : Image Instantiateram.entryFunction 109 mem
  sort : Image Instantiateram.sortFunction 119 mem
  display : Image (displayWords k) 137 mem
  changes : k ≤ 16

section Memory

variable {k : Nat} {mem mem' : BitVec 10 → Word}

theorem Loaded.congr (h : Loaded k mem)
    (hsame : ∀ address : BitVec 10, 90 ≤ address.toNat → address.toNat < 156 → mem' address = mem address) :
    Loaded k mem' := by
  have himage {ws : List Word} {base : Nat} (hw : Image ws base mem) (hlow : 90 ≤ base)
      (hhigh : base + ws.length ≤ 156) : Image ws base mem' := by
    intro j v hv
    have hj := (List.getElem?_eq_some_iff.mp hv).1
    have haddress : (BitVec.ofNat 10 (base + j)).toNat = base + j := Nat.mod_eq_of_lt (by omega)
    rw [hsame _ (by omega) (by omega)]
    exact hw j v hv
  exact ⟨himage h.menu (by decide) (by decide), himage h.entry (by decide) (by decide),
    himage h.sort (by decide) (by decide), himage h.display (by decide) (Nat.le_refl 156), h.changes⟩

theorem Loaded.update (h : Loaded k mem) {address : BitVec 10} (houtside : address.toNat < 90 ∨ 156 ≤ address.toNat)
    (v : Word) : Loaded k (Function.update mem address v) := by
  refine h.congr fun b hlow hhigh => Function.update_of_ne ?_ ..
  rintro rfl
  omega

theorem Loaded.modify (h : Loaded k mem) {l : Nat} (hl : l ≤ 16) :
    Loaded l (Function.update mem 148 (displayWord l)) := by
  have hbelow {ws : List Word} {base : Nat} (hw : Image ws base mem) (hhigh : base + ws.length ≤ 137) :
      Image ws base (Function.update mem 148 (displayWord l)) :=
    image_update hw (by omega) (fun hin => absurd hin.2 (by
      have haddress : (148 : BitVec 10).toNat = 148 := rfl
      omega)) _
  exact ⟨hbelow h.menu (by decide), hbelow h.entry (by decide), hbelow h.sort (by decide),
    image_set h.display (by decide) (by decide) _, hl⟩

end Memory

section Table

variable {i j : Nat}

theorem table_inj (hi : i < 16) (hj : j < 16) (h : BitVec.ofNat 10 (74 + i) = BitVec.ofNat 10 (74 + j)) : i = j := by
  have hvalue := congrArg BitVec.toNat h
  rw [BitVec.toNat_ofNat, BitVec.toNat_ofNat] at hvalue
  omega

theorem table_outside (hj : j < 16) :
    (BitVec.ofNat 10 (74 + j)).toNat < 90 ∨ 156 ≤ (BitVec.ofNat 10 (74 + j)).toNat := by
  rw [BitVec.toNat_ofNat]
  omega

theorem table_ne_display (hi : i < 16) : BitVec.ofNat 10 (74 + i) ≠ 1023 := by
  intro h
  have hvalue := congrArg BitVec.toNat h
  have hlast : (1023 : BitVec 10).toNat = 1023 := rfl
  rw [BitVec.toNat_ofNat, hlast] at hvalue
  omega

theorem table_ne_checkpoint (hi : i < 16) : BitVec.ofNat 10 (74 + i) ≠ 148 := by
  intro h
  have hvalue := congrArg BitVec.toNat h
  have hcheckpoint : (148 : BitVec 10).toNat = 148 := rfl
  rw [BitVec.toNat_ofNat, hcheckpoint] at hvalue
  omega

theorem more_left (hj : j < 16) :
    0b100#3 &&& Isa.conditionCodes (BitVec.ofNat 16 (j + 1) + (-16)) ≠ 0 ↔ j + 1 < 16 := by
  have hall : ∀ j, j < 16 →
      (0b100#3 &&& Isa.conditionCodes (BitVec.ofNat 16 (j + 1) + (-16)) ≠ 0 ↔ j + 1 < 16) := by decide
  exact hall j hj

end Table

theorem decode_displayWord {k : Nat} (hk : k ≤ 16) : Isa.decode (displayWord k) = .pse := by
  have hall : ∀ k, k < 17 → Isa.decode (displayWord k) = .pse := by decide
  exact hall k (Nat.lt_succ_of_le hk)

theorem displayWord_succ (k : Nat) : displayWord k + 16 = displayWord (k + 1) :=
  (BitVec.ofNat_add (0xd802 + 16 * k) 16).symm

end ECE385.SLC3.SortProgram
