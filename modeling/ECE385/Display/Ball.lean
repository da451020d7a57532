import ECE385.Arithmetic.TwosComplement
import ECE385.Clocked.Machine

namespace ECE385.Display.Ball

open Arithmetic.TwosComplement (toNat_add_toInt)
open Clocked.Machine (run_succ)

def ballXCenter : BitVec 10 := 320
def ballYCenter : BitVec 10 := 240
def ballXMin : BitVec 10 := 0
def ballXMax : BitVec 10 := 639
def ballYMin : BitVec 10 := 0
def ballYMax : BitVec 10 := 479
def ballXStep : BitVec 10 := 1
def ballYStep : BitVec 10 := 1
def ballSize : BitVec 10 := 4

structure State where
  xPos : BitVec 10
  xMotion : BitVec 10
  yPos : BitVec 10
  yMotion : BitVec 10
  deriving DecidableEq

def reset : State := ⟨ballXCenter, 0, ballYCenter, 0⟩

/-- The keys A, D, S and W turn the ball, one axis at a time. -/
def steer (keycode : BitVec 8) (b : State) : State :=
  match keycode with
  | 0x04#8 => { b with xMotion := -1, yMotion := 0 }
  | 0x07#8 => { b with xMotion := 1, yMotion := 0 }
  | 0x16#8 => { b with xMotion := 0, yMotion := 1 }
  | 0x1A#8 => { b with xMotion := 0, yMotion := -1 }
  | _ => b

/-- The new motions. A ball at the bottom or the top is not looked at from the
side. -/
def turn (keycode : BitVec 8) (b : State) : State :=
  if ballYMax ≤ b.yPos + ballSize then { b with yMotion := ~~~ballYStep + 1 }
  else if b.yPos - ballSize ≤ ballYMin then { b with yMotion := ballYStep }
  else if ballXMax ≤ b.xPos + ballSize then { b with xMotion := ~~~ballXStep + 1 }
  else if b.xPos - ballSize ≤ ballXMin then { b with xMotion := ballXStep }
  else steer keycode b

/-- One edge of frame_clk. The positions take the old motions. -/
def step (keycode : BitVec 8) (b : State) : State where
  xPos := b.xPos + b.xMotion
  xMotion := (turn keycode b).xMotion
  yPos := b.yPos + b.yMotion
  yMotion := (turn keycode b).yMotion

abbrev run (keys : Nat → BitVec 8) (n : Nat) : State := Clocked.Machine.run step keys reset n

def State.x (b : State) : Int := b.xPos.toNat
def State.dx (b : State) : Int := b.xMotion.toInt
def State.y (b : State) : Int := b.yPos.toNat
def State.dy (b : State) : Int := b.yMotion.toInt

theorem far_edge_iff {limit p : BitVec 10} (hp : (p.toNat : Int) < 1020) :
    limit ≤ p + ballSize ↔ (limit.toNat : Int) - 4 ≤ p.toNat := by
  have hsum : (p + ballSize).toNat = p.toNat + 4 := by
    rw [BitVec.toNat_add]
    exact Nat.mod_eq_of_lt (Nat.add_lt_add_right (Int.ofNat_lt.mp hp) 4)
  rw [BitVec.le_def, hsum]
  omega

/-- Beyond the edge the difference wraps, so the test holds at one place only. -/
theorem near_edge_iff {p : BitVec 10} : p - ballSize ≤ 0#10 ↔ (p.toNat : Int) = 4 := by
  rw [BitVec.le_zero_iff, BitVec.sub_eq_iff_eq_add, BitVec.zero_add, ← BitVec.toNat_inj]
  exact Int.ofNat_inj.symm

section Edges

variable {b : State}

theorem bottom_iff (hy : b.y < 1020) : ballYMax ≤ b.yPos + ballSize ↔ 475 ≤ b.y := far_edge_iff hy

theorem top_iff : b.yPos - ballSize ≤ ballYMin ↔ b.y = 4 := near_edge_iff

theorem right_iff (hx : b.x < 1020) : ballXMax ≤ b.xPos + ballSize ↔ 635 ≤ b.x := far_edge_iff hx

theorem left_iff : b.xPos - ballSize ≤ ballXMin ↔ b.x = 4 := near_edge_iff

end Edges

def OnScreen (b : State) : Prop := b.xPos.toNat ≤ 639 ∧ b.yPos.toNat ≤ 479

instance : DecidablePred OnScreen := fun _ => inferInstanceAs (Decidable (_ ∧ _))

def Steers (keycode : BitVec 8) : Prop := keycode = 0x04 ∨ keycode = 0x07 ∨ keycode = 0x16 ∨ keycode = 0x1A

instance : DecidablePred Steers := fun _ => inferInstanceAs (Decidable (_ ∨ _))

theorem steer_of_not_steers {keycode : BitVec 8} (h : ¬Steers keycode) (b : State) : steer keycode b = b := by
  unfold steer
  split
  · exact absurd (.inl rfl) h
  · exact absurd (.inr (.inl rfl)) h
  · exact absurd (.inr (.inr (.inl rfl))) h
  · exact absurd (.inr (.inr (.inr rfl))) h
  · rfl

structure Slow (b : State) : Prop where
  dx : -1 ≤ b.dx ∧ b.dx ≤ 1
  dy : -1 ≤ b.dy ∧ b.dy ≤ 1

theorem steer_slow (keycode : BitVec 8) {b : State} (h : Slow b) : Slow (steer keycode b) := by
  have hback : -1 ≤ (-1 : BitVec 10).toInt ∧ (-1 : BitVec 10).toInt ≤ 1 := by decide
  have hrest : -1 ≤ (0 : BitVec 10).toInt ∧ (0 : BitVec 10).toInt ≤ 1 := by decide
  have hforth : -1 ≤ (1 : BitVec 10).toInt ∧ (1 : BitVec 10).toInt ≤ 1 := by decide
  unfold steer
  split
  · exact ⟨hback, hrest⟩
  · exact ⟨hforth, hrest⟩
  · exact ⟨hrest, hforth⟩
  · exact ⟨hrest, hback⟩
  · exact h

/-- What a frame can make of the motions, dx and dy, of a ball that is not about
to wrap. -/
inductive Turns (b : State) : Int → Int → Prop
  | bottom (hy : 475 ≤ b.y) : Turns b b.dx (-1)
  | top (hy : b.y = 4) : Turns b b.dx 1
  | right (hy : b.y ≠ 4) (hy' : b.y < 475) (hx : 635 ≤ b.x) : Turns b (-1) b.dy
  | left (hy : b.y ≠ 4) (hy' : b.y < 475) (hx : b.x = 4) : Turns b 1 b.dy
  | free (hy : b.y ≠ 4) (hy' : b.y < 475) (hx : b.x ≠ 4) (hx' : b.x < 635) {dx dy : Int}
      (hdx : -1 ≤ dx ∧ dx ≤ 1) (hdy : -1 ≤ dy ∧ dy ≤ 1) : Turns b dx dy

theorem turn_turns (keycode : BitVec 8) {b : State} (h : Slow b) (hx : b.x < 1020) (hy : b.y < 1020) :
    Turns b (turn keycode b).dx (turn keycode b).dy := by
  unfold turn
  split_ifs with hbottom htop hright hleft
  · exact .bottom ((bottom_iff hy).mp hbottom)
  · exact .top (top_iff.mp htop)
  · exact .right (mt top_iff.mpr htop) (lt_of_not_ge (mt (bottom_iff hy).mpr hbottom)) ((right_iff hx).mp hright)
  · exact .left (mt top_iff.mpr htop) (lt_of_not_ge (mt (bottom_iff hy).mpr hbottom)) (left_iff.mp hleft)
  · have hslow := steer_slow keycode h
    exact .free (mt top_iff.mpr htop) (lt_of_not_ge (mt (bottom_iff hy).mpr hbottom)) (mt left_iff.mpr hleft)
      (lt_of_not_ge (mt (right_iff hx).mpr hright)) hslow.dx hslow.dy

/-- For how many frames the top or the bottom edge still takes the turns. -/
def wait (y dy : Int) : Int :=
  if y = 475 then 2 + dy else if y = 476 then 2 else if y = 4 then if dy = 0 then 2 else 1 else 0

section Wait

variable {y dy : Int} (hdy : -1 ≤ dy ∧ dy ≤ 1)

include hdy

theorem wait_bounds : 0 ≤ wait y dy ∧ wait y dy ≤ 3 := by
  unfold wait
  split_ifs <;> omega

theorem wait_bottom (hy : 475 ≤ y) (hy' : y ≤ 476) (hdeep : y = 476 → dy = -1) :
    wait (y + dy) (-1) + 1 ≤ wait y dy := by
  unfold wait
  split_ifs <;> omega

theorem wait_top (hy : y = 4) : wait (y + dy) 1 + 1 ≤ wait y dy := by
  unfold wait
  split_ifs <;> omega

end Wait

/-- The ball has not yet passed an edge. It may go one place too far before it
turns, and on the right as many as the other axis makes it wait. -/
structure Inside (b : State) : Prop extends Slow b where
  top : 3 ≤ b.y ∧ (b.y = 3 → b.dy = 1)
  bottom : b.y ≤ 476 ∧ (b.y = 476 → b.dy = -1)
  left : 3 ≤ b.x ∧ (b.x = 3 → b.dx = 1)
  right : b.x ≤ 639 ∧ (b.dx = 0 → b.x ≤ 638) ∧ (b.dx = 1 → b.x + wait b.y b.dy ≤ 638)

/-- The ball gets to the left edge in a frame in which the bottom or the top edge
takes the turn. -/
def Missed (b : State) : Prop :=
  b.x = 4 ∧ b.dx = -1 ∧ (ballYMax ≤ b.yPos + ballSize ∨ b.yPos - ballSize ≤ ballYMin)

theorem step_x (keycode : BitVec 8) {b : State} (hlow : 0 ≤ b.x + b.dx) (hhigh : b.x + b.dx < 1024) :
    (step keycode b).x = b.x + b.dx := toNat_add_toInt b.xMotion hlow hhigh

theorem step_y (keycode : BitVec 8) {b : State} (hlow : 0 ≤ b.y + b.dy) (hhigh : b.y + b.dy < 1024) :
    (step keycode b).y = b.y + b.dy := toNat_add_toInt b.yMotion hlow hhigh

theorem inside_reset : Inside reset :=
  ⟨⟨by decide, by decide⟩, by decide, by decide, by decide, by decide⟩

section Frame

variable {b : State} {dx dy : Int} (h : Inside b) (ht : Turns b dx dy)

include h ht

theorem Inside.slow_turned : (-1 ≤ dx ∧ dx ≤ 1) ∧ (-1 ≤ dy ∧ dy ≤ 1) := by
  have hslow := h.toSlow
  cases ht with
  | bottom | top => exact ⟨hslow.dx, by decide⟩
  | right | left => exact ⟨by decide, hslow.dy⟩
  | free _ _ _ _ hdx hdy => exact ⟨hdx, hdy⟩

theorem Inside.vertical :
    (3 ≤ b.y + b.dy ∧ (b.y + b.dy = 3 → dy = 1)) ∧ (b.y + b.dy ≤ 476 ∧ (b.y + b.dy = 476 → dy = -1)) := by
  have hdy := h.dy
  have htop := h.top
  have hbottom := h.bottom
  cases ht with
  | bottom | top | right | left | free => omega

theorem Inside.leftwards (hmissed : ¬Missed b) : 3 ≤ b.x + b.dx ∧ (b.x + b.dx = 3 → dx = 1) := by
  have hdx := h.dx
  have hleft := h.left
  have hbottom := h.bottom.1
  rw [Missed, bottom_iff (by omega), top_iff] at hmissed
  cases ht with
  | bottom | top | right | left | free => omega

/-- An edge frame uses up one frame of waiting; any other frame turns the ball in
time. -/
theorem Inside.rightwards :
    b.x + b.dx ≤ 639 ∧ (dx = 0 → b.x + b.dx ≤ 638) ∧ (dx = 1 → b.x + b.dx + wait (b.y + b.dy) dy ≤ 638) := by
  have hwait := wait_bounds (y := b.y + b.dy) (h.slow_turned ht).2
  have hwait' := wait_bounds (y := b.y) h.dy
  have hdx := h.dx
  have hright := h.right
  cases ht with
  | bottom hedge =>
      have hless := wait_bottom h.dy hedge h.bottom.1 h.bottom.2
      omega
  | top hedge =>
      have hless := wait_top h.dy hedge
      omega
  | right | left | free => omega

end Frame

theorem inside_step (keycode : BitVec 8) {b : State} (h : Inside b) (hmissed : ¬Missed b) :
    Inside (step keycode b) := by
  have hx := h.left.1
  have hx' := h.right.1
  have hy := h.top.1
  have hy' := h.bottom.1
  have hdx := h.dx
  have hdy := h.dy
  have hturns : Turns b (step keycode b).dx (step keycode b).dy :=
    turn_turns keycode h.toSlow (by omega) (by omega)
  obtain ⟨hdx', hdy'⟩ := h.slow_turned hturns
  obtain ⟨htop, hbottom⟩ := h.vertical hturns
  have hleft := h.leftwards hturns hmissed
  have hright := h.rightwards hturns
  rw [← step_x keycode (by omega) (by omega)] at hleft hright
  rw [← step_y keycode (by omega) (by omega)] at htop hbottom hright
  exact ⟨⟨hdx', hdy'⟩, htop, hbottom, hleft, hright⟩

theorem Inside.onScreen {b : State} (h : Inside b) : OnScreen b := by
  have hx := h.right.1
  have hy := h.bottom.1
  rw [State.x] at hx
  rw [State.y] at hy
  exact ⟨by omega, by omega⟩

theorem inside_run {keys : Nat → BitVec 8} {n : Nat} (h : ∀ m, m < n → ¬Missed (run keys m)) :
    Inside (run keys n) := by
  induction n with
  | zero => exact inside_reset
  | succ n ih =>
      rw [run, run_succ]
      exact inside_step (keys n) (ih fun m hm => h m (Nat.lt_succ_of_lt hm)) (h n (Nat.lt_succ_self n))

section Lost

theorem turn_lost {keycode : BitVec 8} (hkey : ¬Steers keycode) {b : State} (hx : b.x < 4) :
    (turn keycode b).xMotion = b.xMotion := by
  have hright : ¬ballXMax ≤ b.xPos + ballSize := by
    rw [right_iff (by omega)]
    omega
  have hleft : ¬b.xPos - ballSize ≤ ballXMin := by
    rw [left_iff]
    omega
  unfold turn
  split_ifs
  · rfl
  · rfl
  · rw [steer_of_not_steers hkey]

theorem missed_step (keycode : BitVec 8) {b : State} (h : Missed b) :
    (step keycode b).x = 3 ∧ (step keycode b).dx = -1 := by
  obtain ⟨hx, hdx, hedge⟩ := h
  have hkept : (turn keycode b).xMotion = b.xMotion := by
    unfold turn
    rcases hedge with hbottom | htop
    · rw [if_pos hbottom]
    · rw [if_pos htop]
      split <;> rfl
  refine ⟨?_, (congrArg BitVec.toInt hkept).trans hdx⟩
  rw [step_x keycode (by omega) (by omega), hx, hdx]
  rfl

theorem lost_step {keycode : BitVec 8} (hkey : ¬Steers keycode) {b : State} (hx : 0 < b.x) (hx' : b.x < 4)
    (hdx : b.dx = -1) : (step keycode b).x = b.x - 1 ∧ (step keycode b).dx = -1 := by
  refine ⟨?_, (congrArg BitVec.toInt (turn_lost hkey hx')).trans hdx⟩
  rw [step_x keycode (by omega) (by omega), hdx]
  rfl

theorem lost_run {keys : Nat → BitVec 8} {n : Nat} (h : Missed (run keys n))
    (hkeys : ∀ m, n < m → m < n + 4 → ¬Steers (keys m)) (k : Nat) (hk : k < 4) :
    (run keys (n + 1 + k)).x = 3 - k ∧ (run keys (n + 1 + k)).dx = -1 := by
  induction k with
  | zero => exact missed_step (keys n) h
  | succ k ih =>
      obtain ⟨hx, hdx⟩ := ih (Nat.lt_of_succ_lt hk)
      have hnext := lost_step (hkeys (n + 1 + k) (by omega) (by omega)) (by omega) (by omega) hdx
      rw [hx] at hnext
      refine ⟨hnext.1.trans ?_, hnext.2⟩
      omega

theorem off_screen (keycode : BitVec 8) {b : State} (hx : b.x = 0) (hdx : b.dx = -1) :
    ¬OnScreen (step keycode b) := by
  have hp : b.xPos = 0 := BitVec.eq_of_toNat_eq (Int.ofNat_inj.mp hx)
  have hm : b.xMotion = -1 := BitVec.eq_of_toInt_eq hdx
  have hwrapped : (step keycode b).xPos = 1023 := by
    rw [step, hp, hm]
    rfl
  intro h
  have hle := h.1
  rw [hwrapped] at hle
  exact absurd hle (by decide)

theorem lost_of_missed {keys : Nat → BitVec 8} {n : Nat} (h : Missed (run keys n))
    (hkeys : ∀ m, n < m → m < n + 4 → ¬Steers (keys m)) : ¬OnScreen (run keys (n + 5)) := by
  obtain ⟨hx, hdx⟩ := lost_run h hkeys 3 (by decide)
  exact off_screen (keys (n + 4)) hx hdx

end Lost

/-- The ball stays on the screen as long as no frame finds it at the left edge
while the bottom or the top edge takes the turn. Once one does, and no key turns
the ball back at once, it leaves the screen. -/
theorem ball_on_screen (keys : Nat → BitVec 8) :
    (∀ n, (∀ m, m < n → ¬Missed (run keys m)) → OnScreen (run keys n)) ∧
    (∀ n, Missed (run keys n) → (∀ m, n < m → m < n + 4 → ¬Steers (keys m)) →
      ¬OnScreen (run keys (n + 5))) := by
  refine ⟨?_, ?_⟩
  · intro n h
    exact (inside_run h).onScreen
  · intro n h hkeys
    exact lost_of_missed h hkeys

/-- The ball runs to the left, falls to the bottom and runs to the left again. -/
def cornered (n : Nat) : BitVec 8 :=
  if n < 315 then 0x04 else if n = 315 then 0x16 else if n = 550 then 0x04 else 0

instance : DecidablePred Missed := fun _ => inferInstanceAs (Decidable (_ ∧ _ ∧ (_ ∨ _)))

theorem missed_cornered : Missed (run cornered 552) := by decide +kernel

theorem cornered_idle : ∀ m, 552 < m → m < 552 + 4 → ¬Steers (cornered m) := by
  intro m hm hlt
  rw [cornered, if_neg (by omega), if_neg (by omega), if_neg (by omega)]
  decide

theorem ball_on_screen_cornered : OnScreen (run cornered 20) ∧ ¬OnScreen (run cornered 557) := by
  have hbefore : ∀ m, m < 20 → ¬Missed (run cornered m) := by decide +kernel
  obtain ⟨hinside, hlost⟩ := ball_on_screen cornered
  exact ⟨hinside 20 hbefore, hlost 552 missed_cornered cornered_idle⟩

theorem corner_loses_ball : ¬ ∀ (keys : Nat → BitVec 8) (n : Nat), OnScreen (run keys n) := by
  intro h
  exact lost_of_missed missed_cornered cornered_idle (h cornered 557)

end ECE385.Display.Ball
