import ECE385.SLC3.Assembler
import ECE385.SLC3.Datapath
import ECE385.SLC3.Isa

namespace ECE385.SLC3.Encoding

open Assembler
open Isa (Instr Operand decode operand)

inductive Statement
  | clr (dr : Reg)
  | and (dr sr1 sr2 : Reg)
  | andi (dr sr : Reg) (imm5 : Int)
  | add (dr sr1 sr2 : Reg)
  | addi (dr sr : Reg) (imm5 : Int)
  | inc (dr : Reg)
  | dec (dr : Reg)
  | not (dr sr : Reg)
  | br (condition : BitVec 3) (pcOffset9 : Int)
  | jmp (baseR : Reg)
  | ret
  | jsr (pcOffset11 : Int)
  | ldr (dr baseR : Reg) (offset6 : Int)
  | str (sr baseR : Reg) (offset6 : Int)
  | pse (ledVect12 : BitVec 12)

def Statement.assemble : Statement → Word
  | .clr dr => opCLR dr
  | .and dr sr1 sr2 => opAND dr sr1 sr2
  | .andi dr sr imm5 => opANDi dr sr imm5
  | .add dr sr1 sr2 => opADD dr sr1 sr2
  | .addi dr sr imm5 => opADDi dr sr imm5
  | .inc dr => opINC dr
  | .dec dr => opDEC dr
  | .not dr sr => opNOT dr sr
  | .br condition pcOffset9 => opBR condition pcOffset9
  | .jmp baseR => opJMP baseR
  | .ret => opRET
  | .jsr pcOffset11 => opJSR pcOffset11
  | .ldr dr baseR offset6 => opLDR dr baseR offset6
  | .str sr baseR offset6 => opSTR sr baseR offset6
  | .pse ledVect12 => opPSE ledVect12

/-- The instruction that a function is for: its name and the comment beside it. -/
def Statement.instr : Statement → Instr
  | .clr dr => .and dr dr (.imm 0)
  | .and dr sr1 sr2 => .and dr sr1 (.reg sr2)
  | .andi dr sr imm5 => .and dr sr (.imm (BitVec.ofInt 16 imm5))
  | .add dr sr1 sr2 => .add dr sr1 (.reg sr2)
  | .addi dr sr imm5 => .add dr sr (.imm (BitVec.ofInt 16 imm5))
  | .inc dr => .add dr dr (.imm 1)
  | .dec dr => .add dr dr (.imm (-1))
  | .not dr sr => .not dr sr
  | .br condition pcOffset9 => .br condition (BitVec.ofInt 16 pcOffset9)
  | .jmp baseR => .jmp baseR
  | .ret => .jmp r7
  | .jsr pcOffset11 => .jsr r7 (BitVec.ofInt 16 pcOffset11)
  | .ldr dr baseR offset6 => .ldr dr baseR (BitVec.ofInt 16 offset6)
  | .str sr baseR offset6 => .str sr baseR (BitVec.ofInt 16 offset6)
  | .pse _ => .pse

/-- With a pause go the bits that its LEDs come from. -/
def Statement.meaning (s : Statement) : Instr × Option (BitVec 12) :=
  (s.instr, match s with
    | .pse ledVect12 => some ledVect12
    | _ => none)

/-- The same, out of a word in IR. -/
def read (w : Word) : Instr × Option (BitVec 12) :=
  (decode w, if decode w = .pse then some (w.extractLsb' 0 12) else none)

def Statement.InRange : Statement → Prop
  | .andi _ _ imm5 | .addi _ _ imm5 => -16 ≤ imm5 ∧ imm5 < 16
  | .br _ pcOffset9 => -256 ≤ pcOffset9 ∧ pcOffset9 < 256
  | .jsr pcOffset11 => -1024 ≤ pcOffset11 ∧ pcOffset11 < 1024
  | .ldr _ _ offset6 | .str _ _ offset6 => -32 ≤ offset6 ∧ offset6 < 32
  | _ => True

/-- An immediate too wide for its field loses its upper bits. -/
def Statement.truncated : Statement → Statement
  | .andi dr sr imm5 => .andi dr sr (imm5.bmod (2 ^ 5))
  | .addi dr sr imm5 => .addi dr sr (imm5.bmod (2 ^ 5))
  | .br condition pcOffset9 => .br condition (pcOffset9.bmod (2 ^ 9))
  | .jsr pcOffset11 => .jsr (pcOffset11.bmod (2 ^ 11))
  | .ldr dr baseR offset6 => .ldr dr baseR (offset6.bmod (2 ^ 6))
  | .str sr baseR offset6 => .str sr baseR (offset6.bmod (2 ^ 6))
  | s => s

theorem truncated_of_inRange {s : Statement} (h : s.InRange) : s.truncated = s := by
  cases s with
  | andi dr sr v | addi dr sr v | br dr v | jsr v | ldr dr sr v | str dr sr v =>
      obtain ⟨hlow, hhigh⟩ := h
      rw [Statement.truncated, Int.bmod_eq_of_le (by omega) (by omega)]
  | _ => rfl

section Format

variable (op : BitVec 4) (high mid : BitVec 3) (low : BitVec 6)

def format : Word := op ++ high ++ mid ++ low

theorem opcode_format : (format op high mid low).extractLsb' 12 4 = op :=
  (BitVec.extractLsb'_append_eq_of_le (by decide)).trans <|
    (BitVec.extractLsb'_append_eq_of_le (by decide)).trans BitVec.extractLsb'_append_eq_left

theorem high_format : (format op high mid low).extractLsb' 9 3 = high :=
  (BitVec.extractLsb'_append_eq_of_le (by decide)).trans <|
    (BitVec.extractLsb'_append_eq_of_le (by decide)).trans BitVec.extractLsb'_append_eq_right

theorem mid_format : (format op high mid low).extractLsb' 6 3 = mid :=
  (BitVec.extractLsb'_append_eq_of_le (by decide)).trans BitVec.extractLsb'_append_eq_right

theorem low_format : (format op high mid low).extractLsb' 0 6 = low :=
  BitVec.extractLsb'_append_eq_right

theorem bit5_format : (format op high mid low).getLsbD 5 = low.getLsbD 5 :=
  BitVec.getLsbD_append.trans (if_pos (by decide))

theorem operand_imm (v : BitVec 5) : operand (format op high mid (1#1 ++ v)) = .imm (v.signExtend 16) := by
  have hbit : (format op high mid (1#1 ++ v)).getLsbD 5 = true :=
    (bit5_format ..).trans (BitVec.getLsbD_append.trans rfl)
  have hvalue : (format op high mid (1#1 ++ v)).extractLsb' 0 5 = v :=
    (BitVec.extractLsb'_append_eq_of_add_le (by decide)).trans BitVec.extractLsb'_append_eq_right
  rw [operand, if_pos hbit, hvalue]

theorem operand_reg (r : Reg) : operand (format op high mid (0#3 ++ r)) = .reg r := by
  have hbit : (format op high mid (0#3 ++ r)).getLsbD 5 = false :=
    (bit5_format ..).trans (BitVec.getLsbD_append.trans rfl)
  have hvalue : (format op high mid (0#3 ++ r)).extractLsb' 0 3 = r :=
    (BitVec.extractLsb'_append_eq_of_add_le (by decide)).trans BitVec.extractLsb'_append_eq_right
  rw [operand, hbit, hvalue]
  rfl

end Format

section Decode

variable {w : Word}

theorem decode_add (h : w.extractLsb' 12 4 = opcodeADD) :
    decode w = .add (w.extractLsb' 9 3) (w.extractLsb' 6 3) (operand w) := by
  simp [decode, h, opcodeADD]

theorem decode_and (h : w.extractLsb' 12 4 = opcodeAND) :
    decode w = .and (w.extractLsb' 9 3) (w.extractLsb' 6 3) (operand w) := by
  simp [decode, h, opcodeAND]

theorem decode_not (h : w.extractLsb' 12 4 = opcodeNOT) :
    decode w = .not (w.extractLsb' 9 3) (w.extractLsb' 6 3) := by
  simp [decode, h, opcodeNOT]

theorem decode_ldr (h : w.extractLsb' 12 4 = opcodeLDR) :
    decode w = .ldr (w.extractLsb' 9 3) (w.extractLsb' 6 3) ((w.extractLsb' 0 6).signExtend 16) := by
  simp [decode, h, opcodeLDR]

theorem decode_str (h : w.extractLsb' 12 4 = opcodeSTR) :
    decode w = .str (w.extractLsb' 9 3) (w.extractLsb' 6 3) ((w.extractLsb' 0 6).signExtend 16) := by
  simp [decode, h, opcodeSTR]

theorem decode_jsr (h : w.extractLsb' 12 4 = opcodeJSR) :
    decode w = .jsr (Isa.link w) ((w.extractLsb' 0 11).signExtend 16) := by
  simp [decode, h, opcodeJSR]

theorem decode_jmp (h : w.extractLsb' 12 4 = opcodeJMP) : decode w = .jmp (w.extractLsb' 6 3) := by
  simp [decode, h, opcodeJMP]

theorem decode_br (h : w.extractLsb' 12 4 = opcodeBR) :
    decode w = .br (w.extractLsb' 9 3) ((w.extractLsb' 0 9).signExtend 16) := by
  simp [decode, h, opcodeBR]

theorem decode_pse (h : w.extractLsb' 12 4 = opcodePSE) : decode w = .pse := by
  simp [decode, h, opcodePSE]

def opcodes : List (BitVec 4) :=
  [ opcodeADD, opcodeAND, opcodeNOT, opcodeLDR, opcodeSTR, opcodeJSR, opcodeJMP, opcodeBR, opcodePSE ]

theorem decode_nop (h : w.extractLsb' 12 4 ∉ opcodes) : decode w = .nop := by
  simp only [opcodes, List.mem_cons, List.not_mem_nil, or_false, not_or] at h
  obtain ⟨hadd, hand, hnot, hldr, hstr, hjsr, hjmp, hbr, hpse⟩ := h
  exact (if_neg hadd).trans <| (if_neg hand).trans <| (if_neg hnot).trans <| (if_neg hldr).trans <|
    (if_neg hstr).trans <| (if_neg hjsr).trans <| (if_neg hjmp).trans <| (if_neg hbr).trans (if_neg hpse)

end Decode

theorem signExtend_ofInt (k : Nat) (v : Int) : (BitVec.ofInt k v).signExtend 16 = BitVec.ofInt 16 (v.bmod (2 ^ k)) := by
  rw [BitVec.signExtend, BitVec.toInt_ofInt]

section Calls

variable (dr sr sr2 : Reg) (v : Int)

theorem decode_opADD : decode (opADD dr sr sr2) = .add dr sr (.reg sr2) := by
  have hword : opADD dr sr sr2 = format opcodeADD dr sr (0#3 ++ sr2) := BitVec.append_assoc
  rw [hword, decode_add (opcode_format ..), high_format, mid_format, operand_reg]

theorem decode_opAND : decode (opAND dr sr sr2) = .and dr sr (.reg sr2) := by
  have hword : opAND dr sr sr2 = format opcodeAND dr sr (0#3 ++ sr2) := BitVec.append_assoc
  rw [hword, decode_and (opcode_format ..), high_format, mid_format, operand_reg]

theorem decode_opADDi : decode (opADDi dr sr v) = .add dr sr (.imm (BitVec.ofInt 16 (v.bmod (2 ^ 5)))) := by
  have hword : opADDi dr sr v = format opcodeADD dr sr (1#1 ++ BitVec.ofInt 5 v) := BitVec.append_assoc
  rw [hword, decode_add (opcode_format ..), high_format, mid_format, operand_imm, signExtend_ofInt]

theorem decode_opANDi : decode (opANDi dr sr v) = .and dr sr (.imm (BitVec.ofInt 16 (v.bmod (2 ^ 5)))) := by
  have hword : opANDi dr sr v = format opcodeAND dr sr (1#1 ++ BitVec.ofInt 5 v) := BitVec.append_assoc
  rw [hword, decode_and (opcode_format ..), high_format, mid_format, operand_imm, signExtend_ofInt]

theorem decode_opNOT : decode (opNOT dr sr) = .not dr sr := by
  rw [show opNOT dr sr = format opcodeNOT dr sr 1#6 from rfl, decode_not (opcode_format ..), high_format, mid_format]

theorem decode_opLDR : decode (opLDR dr sr v) = .ldr dr sr (BitVec.ofInt 16 (v.bmod (2 ^ 6))) := by
  rw [show opLDR dr sr v = format opcodeLDR dr sr (BitVec.ofInt 6 v) from rfl, decode_ldr (opcode_format ..),
    high_format, mid_format, low_format, signExtend_ofInt]

theorem decode_opSTR : decode (opSTR sr dr v) = .str sr dr (BitVec.ofInt 16 (v.bmod (2 ^ 6))) := by
  rw [show opSTR sr dr v = format opcodeSTR sr dr (BitVec.ofInt 6 v) from rfl, decode_str (opcode_format ..),
    high_format, mid_format, low_format, signExtend_ofInt]

theorem decode_opJMP : decode (opJMP sr) = .jmp sr := by
  rw [show opJMP sr = format opcodeJMP 0#3 sr 0#6 from rfl, decode_jmp (opcode_format ..), mid_format]

theorem decode_opBR (condition : BitVec 3) :
    decode (opBR condition v) = .br condition (BitVec.ofInt 16 (v.bmod (2 ^ 9))) := by
  have hopcode : (opBR condition v).extractLsb' 12 4 = opcodeBR :=
    (BitVec.extractLsb'_append_eq_of_le (by decide)).trans BitVec.extractLsb'_append_eq_left
  have hcondition : (opBR condition v).extractLsb' 9 3 = condition :=
    (BitVec.extractLsb'_append_eq_of_le (by decide)).trans BitVec.extractLsb'_append_eq_right
  have hoffset : (opBR condition v).extractLsb' 0 9 = BitVec.ofInt 9 v := BitVec.extractLsb'_append_eq_right
  rw [decode_br hopcode, hcondition, hoffset, signExtend_ofInt]

theorem decode_opJSR : decode (opJSR v) = .jsr r7 (BitVec.ofInt 16 (v.bmod (2 ^ 11))) := by
  have hopcode : (opJSR v).extractLsb' 12 4 = opcodeJSR :=
    (BitVec.extractLsb'_append_eq_of_le (by decide)).trans BitVec.extractLsb'_append_eq_left
  have hbit : (opJSR v).getLsbD 11 = true := BitVec.getLsbD_append.trans rfl
  have hoffset : (opJSR v).extractLsb' 0 11 = BitVec.ofInt 11 v := BitVec.extractLsb'_append_eq_right
  rw [decode_jsr hopcode, Isa.link, if_pos hbit, hoffset, signExtend_ofInt]
  rfl

theorem decode_opPSE (ledVect12 : BitVec 12) : decode (opPSE ledVect12) = .pse :=
  decode_pse BitVec.extractLsb'_append_eq_left

end Calls

theorem decode_assemble (s : Statement) : decode s.assemble = s.truncated.instr := by
  cases s with
  | clr dr => exact decode_opANDi dr dr 0
  | and dr sr1 sr2 => exact decode_opAND dr sr1 sr2
  | andi dr sr imm5 => exact decode_opANDi dr sr imm5
  | add dr sr1 sr2 => exact decode_opADD dr sr1 sr2
  | addi dr sr imm5 => exact decode_opADDi dr sr imm5
  | inc dr => exact decode_opADDi dr dr 1
  | dec dr => exact decode_opADDi dr dr (-1)
  | not dr sr => exact decode_opNOT dr sr
  | br condition pcOffset9 => exact decode_opBR pcOffset9 condition
  | jmp baseR => exact decode_opJMP baseR
  | ret => exact decode_opJMP r7
  | jsr pcOffset11 => exact decode_opJSR pcOffset11
  | ldr dr baseR offset6 => exact decode_opLDR dr baseR offset6
  | str sr baseR offset6 => exact decode_opSTR baseR sr offset6
  | pse ledVect12 => exact decode_opPSE ledVect12

theorem extract_opPSE (ledVect12 : BitVec 12) : (opPSE ledVect12).extractLsb' 0 12 = ledVect12 :=
  BitVec.extractLsb'_append_eq_right

/-- A word is read as meant if it is decoded so, and a pause has kept its LEDs. -/
theorem read_eq {w : Word} {s : Statement} (h : decode w = s.instr)
    (hleds : ∀ ledVect12, s = .pse ledVect12 → w.extractLsb' 0 12 = ledVect12) : read w = s.meaning := by
  rw [read, h]
  cases s with
  | pse ledVect12 => rw [hleds ledVect12 rfl]; rfl
  | _ => rfl

theorem read_assemble (s : Statement) : read s.assemble = s.truncated.meaning := by
  refine read_eq (decode_assemble s) fun ledVect12 h => ?_
  cases s with
  | pse ledVect12' =>
      obtain rfl := Statement.pse.inj h
      exact extract_opPSE ledVect12'
  | _ => exact Statement.noConfusion h

theorem led_opPSE (ledVect12 : BitVec 12) : (opPSE ledVect12).extractLsb' 0 10 = ledVect12.extractLsb' 0 10 :=
  BitVec.extractLsb'_append_eq_of_add_le (by decide)

theorem operand_cases (w : Word) :
    (∃ v : BitVec 5, operand w = .imm (v.signExtend 16)) ∨ ∃ r, operand w = .reg r := by
  rw [operand]
  split
  · exact .inl ⟨_, rfl⟩
  · exact .inr ⟨_, rfl⟩

theorem bounds_toInt {k : Nat} (v : BitVec (k + 1)) : -2 ^ k ≤ v.toInt ∧ v.toInt < 2 ^ k :=
  ⟨BitVec.le_toInt v, BitVec.toInt_lt⟩

/-- What the machine executes can be written with the assembler, unless it saves
its return address outside R7. -/
theorem exists_statement {w : Word} (hnop : decode w ≠ .nop) (hlink : ∀ r offset, decode w = .jsr r offset → r = r7) :
    ∃ s : Statement, s.InRange ∧ read w = s.meaning := by
  suffices h : ∃ s : Statement, s.InRange ∧ decode w = s.instr ∧
      ∀ ledVect12, s = .pse ledVect12 → w.extractLsb' 0 12 = ledVect12 by
    obtain ⟨s, hs, hdecode, hleds⟩ := h
    exact ⟨s, hs, read_eq hdecode hleds⟩
  by_cases hadd : w.extractLsb' 12 4 = opcodeADD
  · rw [decode_add hadd]
    obtain ⟨v, hv⟩ | ⟨r, hr⟩ := operand_cases w
    · exact ⟨.addi _ _ v.toInt, bounds_toInt v, by rw [hv]; rfl, nofun⟩
    · exact ⟨.add _ _ r, trivial, by rw [hr]; rfl, nofun⟩
  by_cases hand : w.extractLsb' 12 4 = opcodeAND
  · rw [decode_and hand]
    obtain ⟨v, hv⟩ | ⟨r, hr⟩ := operand_cases w
    · exact ⟨.andi _ _ v.toInt, bounds_toInt v, by rw [hv]; rfl, nofun⟩
    · exact ⟨.and _ _ r, trivial, by rw [hr]; rfl, nofun⟩
  by_cases hnot : w.extractLsb' 12 4 = opcodeNOT
  · exact ⟨.not _ _, trivial, decode_not hnot, nofun⟩
  by_cases hldr : w.extractLsb' 12 4 = opcodeLDR
  · exact ⟨.ldr _ _ (w.extractLsb' 0 6).toInt, bounds_toInt _, decode_ldr hldr, nofun⟩
  by_cases hstr : w.extractLsb' 12 4 = opcodeSTR
  · exact ⟨.str _ _ (w.extractLsb' 0 6).toInt, bounds_toInt _, decode_str hstr, nofun⟩
  by_cases hjsr : w.extractLsb' 12 4 = opcodeJSR
  · have hlink' := hlink _ _ (decode_jsr hjsr)
    exact ⟨.jsr (w.extractLsb' 0 11).toInt, bounds_toInt _, by rw [decode_jsr hjsr, hlink']; rfl, nofun⟩
  by_cases hjmp : w.extractLsb' 12 4 = opcodeJMP
  · exact ⟨.jmp _, trivial, decode_jmp hjmp, nofun⟩
  by_cases hbr : w.extractLsb' 12 4 = opcodeBR
  · exact ⟨.br _ (w.extractLsb' 0 9).toInt, bounds_toInt _, decode_br hbr, nofun⟩
  by_cases hpse : w.extractLsb' 12 4 = opcodePSE
  · exact ⟨.pse _, trivial, decode_pse hpse, fun _ => Statement.pse.inj⟩
  · refine absurd (decode_nop ?_) hnop
    simp [opcodes, hadd, hand, hnot, hldr, hstr, hjsr, hjmp, hbr, hpse]

theorem instr_ne_nop (s : Statement) : s.instr ≠ .nop := by
  cases s with
  | _ => exact Instr.noConfusion

theorem link_of_instr {s : Statement} {r : Reg} {offset : Word} (h : s.instr = .jsr r offset) : r = r7 := by
  cases s with
  | jsr => exact (Instr.jsr.inj h).1.symm
  | _ => exact Instr.noConfusion h

/-- The machine reads every call of the assembler as it is meant, with the
immediates cut down to their fields. The words that it reads like some call are
the ones that it executes, without those that save a return address outside R7. In
a pause the LEDs show the low bits of what was asked for. -/
theorem assembler_round_trip :
    (∀ s : Statement, read s.assemble = s.truncated.meaning ∧ (s.InRange → read s.assemble = s.meaning)) ∧
    (∀ w, (∃ s : Statement, s.InRange ∧ read s.assemble = read w) ↔
      decode w ≠ .nop ∧ ∀ r offset, decode w = .jsr r offset → r = r7) ∧
    ∀ ledVect12 c reset mdrIn u (d : Datapath.Registers), c.ldLED = true → d.ir = opPSE ledVect12 →
      (Datapath.step c reset mdrIn u d).led = ledVect12.extractLsb' 0 10 := by
  have hround (s : Statement) (h : s.InRange) : read s.assemble = s.meaning := by
    rw [read_assemble, truncated_of_inRange h]
  refine ⟨fun s => ⟨read_assemble s, hround s⟩, fun w => ⟨?_, ?_⟩, fun ledVect12 c reset mdrIn u d hled hir => ?_⟩
  · rintro ⟨s, hs, hw⟩
    have hdecode : decode w = s.instr := congrArg Prod.fst (hw.symm.trans (hround s hs))
    rw [hdecode]
    exact ⟨instr_ne_nop s, fun r offset => link_of_instr⟩
  · rintro ⟨hnop, hlink⟩
    obtain ⟨s, hs, hw⟩ := exists_statement hnop hlink
    exact ⟨s, hs, (hround s hs).trans hw.symm⟩
  · have hstep : (Datapath.step c reset mdrIn u d).led = if c.ldLED then d.ir.extractLsb' 0 10 else 0 := rfl
    rw [hstep, if_pos hled, hir, led_opPSE]

end ECE385.SLC3.Encoding
