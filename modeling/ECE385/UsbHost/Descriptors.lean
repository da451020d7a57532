import Mathlib.Data.List.GetD
import ECE385.UsbHost.Dispatch
import ECE385.UsbHost.Enumeration

namespace ECE385.UsbHost.Descriptors

open MAX3421E Records Transfer Hid Frames Probing
open Imperative.Program

/-- The descriptors of a configuration, with their own fields where the driver reads
them. -/
inductive Descriptor
  | interface (number alternate numEndpoints cls subclass protocol name : Byte)
  | endpoint (address attributes : Byte) (maxPacketSize : Word) (interval : Byte)
  | other (kind : Byte) (body : List Byte) (hkind : kind ≠ descriptorInterface ∧ kind ≠ descriptorEndpoint)
      (hbody : body.length + 2 < 256)

namespace Descriptor

def kind : Descriptor → Byte
  | .interface .. => descriptorInterface
  | .endpoint .. => descriptorEndpoint
  | .other kind .. => kind

def body : Descriptor → List Byte
  | .interface number alternate numEndpoints cls subclass protocol name =>
      [number, alternate, numEndpoints, cls, subclass, protocol, name]
  | .endpoint address attributes maxPacketSize interval =>
      [address, attributes, maxPacketSize.extractLsb' 0 8, maxPacketSize.extractLsb' 8 8, interval]
  | .other _ body .. => body

def bytes (d : Descriptor) : List Byte := BitVec.ofNat 8 (d.body.length + 2) :: d.kind :: d.body

theorem length_body (d : Descriptor) : d.body.length + 2 < 256 := by
  cases d with
  | interface => exact Nat.lt_of_sub_ne_zero nofun
  | endpoint => exact Nat.lt_of_sub_ne_zero nofun
  | other kind body hkind hbody => exact hbody

theorem length_bytes (d : Descriptor) : d.bytes.length = d.body.length + 2 := rfl

theorem toNat_length (d : Descriptor) : (BitVec.ofNat 8 (d.body.length + 2)).toNat = d.bytes.length := by
  rw [BitVec.toNat_ofNat, length_bytes]
  exact Nat.mod_eq_of_lt d.length_body

end Descriptor

def encode (ds : List Descriptor) : List Byte := ds.flatMap Descriptor.bytes

def Holds (buf : Nat → Byte) (pos : Nat) (bs : List Byte) : Prop := ∀ i < bs.length, buf (pos + i) = bs.getD i 0

section Holds

variable {buf : Nat → Byte} {pos : Nat} {bs bs' : List Byte} {d : Descriptor} {ds : List Descriptor}

theorem Holds.append_iff : Holds buf pos (bs ++ bs') ↔ Holds buf pos bs ∧ Holds buf (pos + bs.length) bs' := by
  constructor
  · refine fun h => ⟨fun i hi => ?_, fun i hi => ?_⟩
    · rw [h i (by rw [List.length_append]; omega), List.getD_append _ _ _ _ hi]
    · rw [Nat.add_assoc, h _ (by rw [List.length_append]; omega), List.getD_append_right _ _ _ _ (Nat.le_add_right _ _),
        Nat.add_sub_cancel_left]
  · rintro ⟨h, h'⟩ i hi
    rw [List.length_append] at hi
    rcases Nat.lt_or_ge i bs.length with hlt | hge
    · rw [h i hlt, List.getD_append _ _ _ _ hlt]
    · obtain ⟨j, rfl⟩ := Nat.exists_eq_add_of_le hge
      rw [← Nat.add_assoc, h' j (by omega), List.getD_append_right _ _ _ _ hge, Nat.add_sub_cancel_left]

theorem Holds.encode_append {ds' : List Descriptor} :
    Holds buf pos (encode (ds ++ ds')) ↔
      Holds buf pos (encode ds) ∧ Holds buf (pos + (encode ds).length) (encode ds') := by
  rw [encode, List.flatMap_append]
  exact Holds.append_iff

theorem Holds.head (h : Holds buf pos (encode (d :: ds))) : Holds buf pos d.bytes :=
  (Holds.append_iff.mp h).1

theorem Holds.tail (h : Holds buf pos (encode (d :: ds))) : Holds buf (pos + d.bytes.length) (encode ds) :=
  (Holds.append_iff.mp h).2

theorem Holds.length (h : Holds buf pos d.bytes) : (buf pos).toNat = d.bytes.length := by
  rw [← d.toNat_length]
  exact congrArg BitVec.toNat (h 0 (Nat.succ_pos _))

theorem Holds.kind (h : Holds buf pos d.bytes) : buf (pos + 1) = d.kind := h 1 (Nat.succ_lt_succ (Nat.succ_pos _))

theorem Holds.bigbuf {d d' : Driver} (h : Holds d.byteAt pos bs) (hbigbuf : d'.bigbuf = d.bigbuf)
    (hfit : pos + bs.length ≤ 256) : Holds d'.byteAt pos bs := by
  intro i hi
  rw [Driver.byteAt_congr hbigbuf (Nat.lt_of_lt_of_le (Nat.add_lt_add_left hi pos) hfit)]
  exact h i hi

end Holds

section Search

variable {buf : Nat → Byte} {pos totalLength : Nat} {kind : Byte} {d : Descriptor} {ds ds' : List Descriptor}

theorem length_encode_cons : (encode (d :: ds)).length = d.bytes.length + (encode ds).length := List.length_append

theorem skipTo_skip (h : Holds buf pos (encode ds)) (hother : ∀ d ∈ ds, d.kind ≠ kind)
    (hend : pos + (encode ds).length ≤ totalLength) (fuel : Nat) :
    skipTo buf totalLength kind (fuel + ds.length) pos =
      skipTo buf totalLength kind fuel (pos + (encode ds).length) := by
  induction ds generalizing pos with
  | nil => rfl
  | cons d ds ih =>
      rw [length_encode_cons, ← Nat.add_assoc] at hend ⊢
      have hlt : pos < totalLength := by
        have hlength := d.length_bytes
        omega
      rw [List.length_cons, ← Nat.add_assoc, skipTo, if_pos hlt, h.head.kind, if_neg (hother d List.mem_cons_self),
        h.head.length]
      exact ih h.tail (fun d hd => hother d (List.mem_cons_of_mem _ hd)) hend

theorem skipTo_none (h : Holds buf pos (encode ds)) (hother : ∀ d ∈ ds, d.kind ≠ kind) {fuel : Nat}
    (hfuel : ds.length < fuel) : skipTo buf (pos + (encode ds).length) kind fuel pos = some none := by
  obtain ⟨fuel, rfl⟩ := Nat.exists_eq_add_of_lt hfuel
  rw [Nat.add_assoc, Nat.add_comm ds.length, skipTo_skip h hother (Nat.le_refl _), skipTo, if_neg (Nat.lt_irrefl _)]

theorem skipTo_found (h : Holds buf pos (encode (ds ++ d :: ds'))) (hother : ∀ d ∈ ds, d.kind ≠ kind)
    (hkind : d.kind = kind) (hend : pos + (encode (ds ++ d :: ds')).length ≤ totalLength) {fuel : Nat}
    (hfuel : ds.length < fuel) :
    skipTo buf totalLength kind fuel pos = some (some (pos + (encode ds).length)) := by
  obtain ⟨fuel, rfl⟩ := Nat.exists_eq_add_of_lt hfuel
  obtain ⟨hbefore, hafter⟩ := Holds.encode_append.mp h
  have hlength : (encode (ds ++ d :: ds')).length = (encode ds).length + (d.bytes.length + (encode ds').length) := by
    rw [encode, List.flatMap_append, List.length_append]
    exact congrArg _ length_encode_cons
  rw [hlength] at hend
  rw [Nat.add_assoc, Nat.add_comm ds.length, skipTo_skip hbefore hother (by omega), skipTo, if_pos,
    hafter.head.kind, if_pos hkind]
  have hpos := d.length_bytes
  omega

end Search

/-- What the endpoint is entered with, behind HID_init. -/
def Descriptor.record : Descriptor → Option EpRecord
  | .endpoint address attributes maxPacketSize interval =>
      some ⟨address, attributes, maxPacketSize, interval, bmSNDTOG0, bmRCVTOG0⟩
  | _ => none

inductive Selection
  | nothing
  | interface (number : Byte)
  | device (number : Byte) (r : EpRecord)

/-- What a probe is to find: the first interface, if it is the boot interface looked
for, and the first endpoint behind it. -/
def select (protocol : Byte) : List Descriptor → Selection
  | [] => .nothing
  | .interface number _ _ cls subclass prot _ :: ds =>
      if cls = hidIntf ∧ subclass = bootIntfSubclass ∧ prot = protocol then
        match ds.findSome? Descriptor.record with
        | some r => .device number r
        | none => .interface number
      else .nothing
  | _ :: ds => select protocol ds

section Select

variable {kind : Byte} {ds : List Descriptor}

theorem split_kind (kind : Byte) (ds : List Descriptor) : (∀ d ∈ ds, d.kind ≠ kind) ∨
    ∃ pre d post, ds = pre ++ d :: post ∧ (∀ x ∈ pre, x.kind ≠ kind) ∧ d.kind = kind := by
  induction ds with
  | nil => exact .inl fun _ h => absurd h List.not_mem_nil
  | cons d ds ih =>
      by_cases hkind : d.kind = kind
      · exact .inr ⟨[], d, ds, rfl, fun _ h => absurd h List.not_mem_nil, hkind⟩
      rcases ih with hnone | ⟨pre, d', post, rfl, hpre, hd'⟩
      · exact .inl (List.forall_mem_cons.mpr ⟨hkind, hnone⟩)
      · exact .inr ⟨d :: pre, d', post, rfl, List.forall_mem_cons.mpr ⟨hkind, hpre⟩, hd'⟩

theorem select_skip (protocol : Byte) {pre : List Descriptor} (hpre : ∀ x ∈ pre, x.kind ≠ descriptorInterface) :
    select protocol (pre ++ ds) = select protocol ds := by
  induction pre with
  | nil => rfl
  | cons d pre ih =>
      have hrest := ih fun x hx => hpre x (List.mem_cons_of_mem _ hx)
      cases d with
      | interface => exact absurd rfl (hpre _ List.mem_cons_self)
      | endpoint => exact hrest
      | other => exact hrest

theorem record_skip {pre : List Descriptor} (hpre : ∀ x ∈ pre, x.kind ≠ descriptorEndpoint) :
    (pre ++ ds).findSome? Descriptor.record = ds.findSome? Descriptor.record := by
  induction pre with
  | nil => rfl
  | cons d pre ih =>
      have hrest := ih fun x hx => hpre x (List.mem_cons_of_mem _ hx)
      cases d with
      | interface => exact hrest
      | endpoint => exact absurd rfl (hpre _ List.mem_cons_self)
      | other => exact hrest

theorem append_bytes (w : Word) : w.extractLsb' 8 8 ++ w.extractLsb' 0 8 = w :=
  (BitVec.extractLsb'_append_extractLsb'_eq_extractLsb' rfl).trans BitVec.extractLsb'_eq_self

theorem epFromDescr_record {buf : Nat → Byte} {pos : Nat} {d : Descriptor} (h : Holds buf pos d.bytes)
    (hkind : d.kind = descriptorEndpoint) {r : EpRecord} (hsnd : r.sndToggle = bmSNDTOG0)
    (hrcv : r.rcvToggle = bmRCVTOG0) : d.record = some (epFromDescr buf pos r) := by
  cases d with
  | interface => exact absurd hkind (by decide : descriptorInterface ≠ descriptorEndpoint)
  | other kind body hother => exact absurd hkind hother.2
  | endpoint address attributes maxPacketSize interval =>
      have hfield (i : Nat) (hi : i < 7) := h i hi
      have hsize : wordAt buf (pos + 4) = maxPacketSize := by
        rw [wordAt, Nat.add_assoc, hfield 5 (by decide), hfield 4 (by decide)]
        exact append_bytes maxPacketSize
      rw [Descriptor.record, epFromDescr, hsize, hfield 2 (by decide), hfield 3 (by decide), hfield 6 (by decide), hsnd,
        hrcv]
      rfl

variable {buf : Nat → Byte} {pos fuel : Nat}

/-- What the walk comes to, and what it leaves behind. -/
theorem skipTo_cases (kind : Byte) (h : Holds buf pos (encode ds)) (hfuel : ds.length < fuel) :
    (∀ d ∈ ds, d.kind ≠ kind) ∧ skipTo buf (pos + (encode ds).length) kind fuel pos = some none ∨
    ∃ pre d post, ds = pre ++ d :: post ∧ (∀ x ∈ pre, x.kind ≠ kind) ∧ d.kind = kind ∧
      Holds buf (pos + (encode pre).length) (encode (d :: post)) ∧
      skipTo buf (pos + (encode ds).length) kind fuel pos = some (some (pos + (encode pre).length)) := by
  rcases split_kind kind ds with hnone | ⟨pre, d, post, rfl, hpre, hkind⟩
  · exact .inl ⟨hnone, skipTo_none h hnone hfuel⟩
  · rw [List.length_append] at hfuel
    exact .inr ⟨pre, d, post, rfl, hpre, hkind, (Holds.encode_append.mp h).2,
      skipTo_found h hpre hkind (Nat.le_refl _) (by omega)⟩

theorem interface_found (protocol : Byte) (h : Holds buf 0 (encode ds)) (hfuel : ds.length < fuel) :
    skipTo buf (encode ds).length descriptorInterface fuel 0 = some none ∧ select protocol ds = .nothing ∨
    ∃ pos number alternate numEndpoints cls subclass prot name post,
      skipTo buf (encode ds).length descriptorInterface fuel 0 = some (some pos) ∧
      (encode ds).length = pos + 9 + (encode post).length ∧ post.length < fuel ∧
      Holds buf pos (encode (.interface number alternate numEndpoints cls subclass prot name :: post)) ∧
      select protocol ds =
        select protocol (.interface number alternate numEndpoints cls subclass prot name :: post) := by
  have hcases := skipTo_cases descriptorInterface h hfuel
  simp only [Nat.zero_add] at hcases
  rcases hcases with ⟨hnone, hskip⟩ | ⟨pre, i, post, rfl, hpre, hkind, hafter, hskip⟩
  · have hselect : select protocol (ds ++ []) = select protocol [] := select_skip protocol hnone
    rw [List.append_nil] at hselect
    exact .inl ⟨hskip, hselect⟩
  cases i with
  | endpoint => exact absurd hkind (by decide : descriptorEndpoint ≠ descriptorInterface)
  | other kind body hother => exact absurd hkind hother.1
  | interface number alternate numEndpoints cls subclass prot name =>
      refine .inr ⟨_, number, alternate, numEndpoints, cls, subclass, prot, name, post, hskip, ?_, ?_, hafter,
        select_skip protocol hpre⟩
      · rw [encode, List.flatMap_append, List.length_append, Nat.add_assoc]
        exact congrArg _ length_encode_cons
      · rw [List.length_append, List.length_cons] at hfuel
        omega

theorem endpoint_found (h : Holds buf pos (encode ds)) (hfuel : ds.length < fuel) {r : EpRecord}
    (hsnd : r.sndToggle = bmSNDTOG0) (hrcv : r.rcvToggle = bmRCVTOG0) :
    skipTo buf (pos + (encode ds).length) descriptorEndpoint fuel pos = some none ∧
      ds.findSome? Descriptor.record = none ∨
    ∃ p, skipTo buf (pos + (encode ds).length) descriptorEndpoint fuel pos = some (some p) ∧
      ds.findSome? Descriptor.record = some (epFromDescr buf p r) := by
  rcases skipTo_cases descriptorEndpoint h hfuel with ⟨hnone, hskip⟩ | ⟨pre, e, post, rfl, hpre, hkind, hafter, hskip⟩
  · have hrecord : (ds ++ []).findSome? Descriptor.record = [].findSome? Descriptor.record := record_skip hnone
    rw [List.append_nil] at hrecord
    exact .inl ⟨hskip, hrecord⟩
  · refine .inr ⟨_, hskip, ?_⟩
    rw [record_skip hpre, List.findSome?_cons, epFromDescr_record hafter.head hkind hsnd hrcv]

end Select

section Parse

variable {σ : Type} (c : Chip σ) (fuel : Nat) {d : Driver} {m : Nat} {addr devclass : Byte} {s : System σ}

/-- What a parse comes to, by what there was to find. `P` holds of the result codes. -/
def Parsed (P : Byte → Prop) (addr devclass : Byte) (s t : System σ) (found : Bool) : Selection → Prop
  | .nothing => found = false ∧ t = s
  | .interface number => found = false ∧ Taken t.driver addr devclass ∧ t.driver.hidInterface = number
  | .device number r => (found = false → ∃ rcode, rcode ≠ 0 ∧ P rcode) ∧ Taken t.driver addr devclass ∧
      t.driver.hidInterface = number ∧ t.driver.hidEp (Fin.last 1) = r

theorem search_skipTo {F : Stop Fault → Prop} {totalLength pos : Nat} {kind : Byte} {r : Option Nat}
    (h : skipTo s.driver.byteAt totalLength kind fuel pos = some r) {Q : Option Nat → System σ → Prop} (hQ : Q r s) :
    wp F (search fuel totalLength kind pos) Q s := by
  rw [search, wp_bind, wp_get, h]
  exact hQ

theorem parse_parsed {F : Stop Fault → Prop} {P : Byte → Prop}
    (hdispatch : ∀ token t, wp F (xferDispatchPkt c fuel token 0) (fun rcode u => P rcode ∧ u.driver = t.driver) t)
    (hpos : 0 < addr.toNat) (haddr : addr.toNat ≤ m) (hclass : devclass.toNat ≤ 2) (protocol : Byte)
    {ds : List Descriptor} (hfuel : ds.length < fuel) (hfit : (encode ds).length ≤ 256)
    (hbuf : Holds s.driver.byteAt 0 (encode ds)) (hs : Probed d m s.driver) :
    wp F (parse c fuel addr protocol devclass (encode ds).length)
      (fun found t => Parsed P addr devclass s t found (select protocol ds)) s := by
  rw [parse, bigbufAt, wp_bind, wp_bind, wp_get, wp_pure, wp_bind]
  rcases interface_found protocol hbuf hfuel with ⟨hskip, hselect⟩ |
    ⟨L, number, alternate, numEndpoints, cls, subclass, prot, name, post, hskip, hlength, hfuel', hinterface, hselect⟩
  · rw [hselect]
    exact search_skipTo fuel hskip ⟨rfl, rfl⟩
  refine search_skipTo fuel hskip ?_
  have hfield (k : Nat) (hk : k < 9) := hinterface.head k hk
  have hcls : s.driver.byteAt (L + 5) = cls := hfield 5 (by decide)
  have hsubclass : s.driver.byteAt (L + 6) = subclass := hfield 6 (by decide)
  have hprot : s.driver.byteAt (L + 7) = prot := hfield 7 (by decide)
  simp only [bigbufAt, wp_bind, wp_get, wp_pure]
  rw [hselect, hcls, hsubclass, hprot]
  rw [hlength] at hfit
  refine wp_ite (fun hboot => ?_) fun hboot => ?_
  · rw [select, if_pos hboot, wp_bind]
    refine wp_mono (takeDevice_taken hpos haddr hclass L hs) fun _ t ht => ?_
    obtain ⟨hprobed, htaken, hready⟩ := ht
    have hnumber : t.driver.hidInterface = number := (hready.interface (by omega)).trans (hfield 2 (by decide))
    have hnine : (t.driver.byteAt L).toNat = 9 := by
      rw [Driver.byteAt_congr hready.bigbuf (by omega)]
      exact hinterface.head.length
    have hpost : Holds t.driver.byteAt (L + 9) (encode post) := hinterface.tail.bigbuf hready.bigbuf hfit
    rw [wp_bind, wp_bind, wp_get, wp_pure, hnine, hlength, wp_bind]
    rcases endpoint_found hpost hfuel' hready.sndToggle hready.rcvToggle with ⟨hskip', hrecord⟩ | ⟨p, hskip', hrecord⟩
    · rw [hrecord]
      exact search_skipTo fuel hskip' ⟨rfl, htaken, hnumber⟩
    · refine search_skipTo fuel hskip' ?_
      rw [hrecord]
      refine wp_mono (configure_driver c fuel hdispatch _ _ (htaken.has hprobed.table)) fun found u hu => ?_
      refine ⟨hu.1, ?_, ?_, ?_⟩
      · rw [hu.2]
        exact htaken.agrees (.setEp _ _ _ _)
      · rw [hu.2]
        exact hnumber
      · rw [hu.2]
        exact Function.update_self (1 : Fin 2) _ t.driver.hidEp
  · rw [select, if_neg hboot]
    exact ⟨rfl, rfl⟩

end Parse

theorem hidProbe_eq {σ : Type} (c : Chip σ) (fuel : Nat) (addr protocol devclass : Byte) {n : Nat} (hn : n ≤ 256)
    {s : System σ} (s₀ s₁ : System σ) (hfirst : getConfDescr c fuel addr confDescrLen s₀ = .ok (0, s₁))
    (hlength : wordAt s₁.driver.byteAt 2 = BitVec.ofNat 16 n)
    (hsecond : getConfDescr c fuel addr (BitVec.ofNat 16 n) s₁ = .ok (0, s)) :
    hidProbe c fuel protocol devclass addr s₀ = parse c fuel addr protocol devclass n s := by
  have hn' : (BitVec.ofNat 16 n).toNat = n := by
    rw [BitVec.toNat_ofNat]
    exact Nat.mod_eq_of_lt (Nat.lt_of_le_of_lt hn (by decide))
  have hclamp : ¬BitVec.ofNat 16 n > 256 := by
    rw [gt_iff_lt, BitVec.lt_def, hn']
    exact Nat.not_lt_of_le hn
  rw [hidProbe, run_bind hfirst, if_neg (not_not.mpr rfl), run_bind (m := get) rfl, hlength, if_neg hclamp,
    run_bind hsecond, if_neg (not_not.mpr rfl), hn']

def Obliging {σ : Type} (c : Chip σ) (fuel : Nat) : Prop :=
  ∀ token s, ∃ t, xferDispatchPkt c fuel token 0 s = .ok (0, t)

/-- A probe of a well-formed configuration that fits into `bigbuf` takes the endpoint
that was sent, in the first interface, and nothing where there is nothing to find.
With a device that acknowledges every packet it finds what there is. -/
theorem parse_encoded {σ : Type} (c : Chip σ) (fuel : Nat) (addr protocol devclass : Byte) (m : Nat)
    (hpos : 0 < addr.toNat) (haddr : addr.toNat ≤ m) (hclass : devclass.toNat ≤ 2) (ds : List Descriptor)
    (hfuel : ds.length < fuel) (hfit : (encode ds).length ≤ 256) (s : System σ) (htable : Enumerated s.driver m)
    (hbuf : Holds s.driver.byteAt 0 (encode ds)) :
    (∀ found t, parse c fuel addr protocol devclass (encode ds).length s = .ok (found, t) →
      match select protocol ds with
      | .nothing => found = false ∧ t = s
      | .interface number => found = false ∧ Taken t.driver addr devclass ∧ t.driver.hidInterface = number
      | .device number r => Taken t.driver addr devclass ∧ t.driver.hidInterface = number ∧ t.driver.hidEp 1 = r) ∧
    (Obliging c fuel → ∃ found t, parse c fuel addr protocol devclass (encode ds).length s = .ok (found, t) ∧
      (found = true ↔ ∃ number r, select protocol ds = .device number r)) ∧
    (∀ s₀ s₁, getConfDescr c fuel addr confDescrLen s₀ = .ok (0, s₁) →
      wordAt s₁.driver.byteAt 2 = BitVec.ofNat 16 (encode ds).length →
      getConfDescr c fuel addr (BitVec.ofNat 16 (encode ds).length) s₁ = .ok (0, s) →
      hidProbe c fuel protocol devclass addr s₀ = parse c fuel addr protocol devclass (encode ds).length s) := by
  have hs : Probed s.driver m s.driver := ⟨htable, rfl, rfl⟩
  have hdispatch (token : Byte) (t : System σ) : wp Stop.Short (xferDispatchPkt c fuel token 0)
      (fun rcode u => True ∧ u.driver = t.driver) t :=
    wp_mono (xferDispatchPkt_driver c fuel token 0 t) fun _ _ hu => ⟨trivial, hu⟩
  refine ⟨fun found t hrun => ?_, fun hobliging => ?_, hidProbe_eq c fuel addr protocol devclass hfit⟩
  · have hparsed := wp_ok (parse_parsed c fuel hdispatch hpos haddr hclass protocol hfuel hfit hbuf hs) hrun
    cases hselect : select protocol ds with
    | nothing =>
        rw [hselect] at hparsed
        exact hparsed
    | interface number =>
        rw [hselect] at hparsed
        exact hparsed
    | device number r =>
        rw [hselect] at hparsed
        exact hparsed.2
  · have hacknowledged (token : Byte) (t : System σ) : wp Stop.Never (xferDispatchPkt c fuel token 0)
        (fun rcode u => rcode = 0 ∧ u.driver = t.driver) t :=
      wp_mono (wp_and (xferDispatchPkt_driver c fuel token 0 t) (wp_never_iff.mpr ⟨0, (hobliging token t).choose,
        (hobliging token t).choose_spec, rfl⟩)) fun _ _ hu => hu.symm
    obtain ⟨found, t, hrun, hparsed⟩ :=
      wp_never_iff.mp (parse_parsed c fuel hacknowledged hpos haddr hclass protocol hfuel hfit hbuf hs)
    refine ⟨found, t, hrun, ?_⟩
    cases hselect : select protocol ds with
    | nothing =>
        rw [hselect] at hparsed
        exact ⟨fun h => absurd (hparsed.1.symm.trans h) Bool.false_ne_true, fun ⟨_, _, h⟩ => nomatch h⟩
    | interface number =>
        rw [hselect] at hparsed
        exact ⟨fun h => absurd (hparsed.1.symm.trans h) Bool.false_ne_true, fun ⟨_, _, h⟩ => nomatch h⟩
    | device number r =>
        rw [hselect] at hparsed
        refine ⟨fun _ => ⟨number, r, rfl⟩, fun _ => ?_⟩
        cases found with
        | true => rfl
        | false =>
            obtain ⟨rcode, hne, hzero⟩ := hparsed.1 rfl
            exact absurd hzero hne

/-- A boot mouse with one endpoint: its configuration, interface, HID and endpoint
descriptors. -/
def mouseDescriptors : List Descriptor :=
  [.other 0x02 [34, 0, 1, 1, 0, 0xa0, 50] (by decide) (by decide), .interface 0 0 1 3 1 2 0,
    .other 0x21 [0x11, 0x01, 0, 1, 0x22, 0x32, 0] (by decide) (by decide), .endpoint 0x81 3 8 10]

def mouseDriver : Driver :=
  { UsbTask.initDriver .initial with
    devtable := Function.update (UsbTask.initDriver .initial).devtable 1 ⟨some .dev0ep, 0⟩ }

/-- A device that acknowledges everything and always sends these descriptors. -/
def sender : Chip Unit :=
  { Dispatch.steady fun reg => if reg = rHRSL then 0 else if reg = rRCVBC then 34 else 0xff with
    bytesRd := fun _ _ s => (.ofFn fun i => (encode mouseDescriptors).getD i 0, s) }

theorem sender_read : ∃ s₁ s, getConfDescr sender 5 1 confDescrLen ⟨(), mouseDriver⟩ = .ok (0, s₁) ∧
    wordAt s₁.driver.byteAt 2 = 34 ∧ getConfDescr sender 5 1 34 s₁ = .ok (0, s) ∧
    ∀ i < 34, s.driver.byteAt i = (encode mouseDescriptors).getD i 0 := by
  have hreads : (getConfDescr sender 5 1 confDescrLen ⟨(), mouseDriver⟩).toOption.any fun r =>
      r.1 = 0 ∧ wordAt r.2.driver.byteAt 2 = 34 ∧ (getConfDescr sender 5 1 34 r.2).toOption.any fun r' =>
        r'.1 = 0 ∧ ∀ i < 34, r'.2.driver.byteAt i = (encode mouseDescriptors).getD i 0 := by
    decide +kernel
  obtain ⟨rcode, s₁, hfirst, hread⟩ := run_of_any hreads
  obtain ⟨rfl, hlength, hread⟩ := of_decide_eq_true hread
  obtain ⟨rcode, s, hsecond, hread⟩ := run_of_any hread
  obtain ⟨rfl, hbuf⟩ := of_decide_eq_true hread
  exact ⟨s₁, s, hfirst, hlength, hsecond, hbuf⟩

theorem parse_encoded_mouse : ∃ found t,
    hidProbe sender 5 hidProtocolMouse hidM 1 ⟨(), mouseDriver⟩ = .ok (found, t) ∧ found = true := by
  obtain ⟨s₁, s, hfirst, hlength, hsecond, hbuf⟩ := sender_read
  have htable : Enumerated mouseDriver 1 :=
    ((Enumeration.enumerated_init .initial).update (i := 1) (r := ⟨some .dev0ep, 0⟩) (by decide)
      (fun j hne => by omega) (by decide) ⟨nofun, fun hlt => absurd hlt (Nat.lt_irrefl 1)⟩ (by decide)).of_eq rfl
  have hprobed := wp_ok (getConfDescr_probed sender 5 (by decide) _ ⟨htable, rfl, rfl⟩) hfirst
  have hprobed' := wp_ok (getConfDescr_probed sender 5 (by decide) _ hprobed) hsecond
  have hobliging : Obliging sender 5 :=
    fun token s => Dispatch.dispatch_acknowledged (fun _ => rfl)
      (fun _ => (by decide : (0xff : Byte) &&& bmHXFRDNIRQ ≠ 0)) (fun _ => (by decide : (0 : Byte) &&& 0x0f = 0)) 4 token
      0 s
  obtain ⟨-, hends, hprobe⟩ := parse_encoded sender 5 1 hidProtocolMouse hidM 1 (by decide) (by decide) (by decide)
    mouseDescriptors (by decide) (by decide) s hprobed'.table
    fun i hi => (congrArg s.driver.byteAt (Nat.zero_add i)).trans (hbuf i hi)
  obtain ⟨found, t, hrun, hfound⟩ := hends hobliging
  exact ⟨found, t, (hprobe _ s₁ hfirst hlength hsecond).trans hrun, hfound.mpr ⟨0, _, rfl⟩⟩

inductive Reaches (buf : Nat → Byte) (totalLength : Nat) (kind : Byte) : Nat → Nat → Prop
  | refl (pos : Nat) : Reaches buf totalLength kind pos pos
  | step (pos last : Nat) (hlt : pos < totalLength) (hother : buf (pos + 1) ≠ kind)
      (h : Reaches buf totalLength kind (pos + (buf pos).toNat) last) : Reaches buf totalLength kind pos last

/-- A descriptor of another type that claims to have no length. -/
def Stuck (buf : Nat → Byte) (totalLength : Nat) (kind : Byte) (pos : Nat) : Prop :=
  pos < totalLength ∧ buf (pos + 1) ≠ kind ∧ buf pos = 0

section Stuck

variable {buf : Nat → Byte} {totalLength pos last : Nat} {kind : Byte}

theorem Stuck.hangs (h : Stuck buf totalLength kind pos) (fuel : Nat) :
    skipTo buf totalLength kind fuel pos = none := by
  obtain ⟨hlt, hother, hzero⟩ := h
  induction fuel with
  | zero => rfl
  | succ fuel ih =>
      rw [skipTo, if_pos hlt, if_neg hother, hzero]
      exact ih

theorem Reaches.hangs (h : Reaches buf totalLength kind pos last) (hstuck : Stuck buf totalLength kind last)
    (fuel : Nat) : skipTo buf totalLength kind fuel pos = none := by
  induction h generalizing fuel with
  | refl => exact hstuck.hangs fuel
  | step pos last hlt hother h ih =>
      cases fuel with
      | zero => rfl
      | succ fuel =>
          rw [skipTo, if_pos hlt, if_neg hother]
          exact ih hstuck fuel

theorem stuck_of_hangs (h : ∀ fuel, skipTo buf totalLength kind fuel pos = none) :
    ∃ last, Reaches buf totalLength kind pos last ∧ Stuck buf totalLength kind last := by
  induction hleft : totalLength - pos using Nat.strong_induction_on generalizing pos with
  | _ left ih =>
      have hlt : pos < totalLength := by
        by_contra hge
        have hone := h 1
        rw [skipTo, if_neg hge] at hone
        exact absurd hone (Option.some_ne_none _)
      have hother : buf (pos + 1) ≠ kind := by
        intro heq
        have hone := h 1
        rw [skipTo, if_pos hlt, if_pos heq] at hone
        exact absurd hone (Option.some_ne_none _)
      by_cases hzero : buf pos = 0
      · exact ⟨pos, .refl pos, hlt, hother, hzero⟩
      · have hpos : 0 < (buf pos).toNat := Nat.pos_of_ne_zero fun h => hzero (BitVec.eq_of_toNat_eq h)
        have hnext (fuel : Nat) : skipTo buf totalLength kind fuel (pos + (buf pos).toNat) = none := by
          have hsucc := h (fuel + 1)
          rwa [skipTo, if_pos hlt, if_neg hother] at hsucc
        obtain ⟨last, hreaches, hstuck⟩ := ih _ (by omega) hnext rfl
        exact ⟨last, .step pos last hlt hother hreaches, hstuck⟩

end Stuck

/-- The search of a probe goes on for ever exactly when it comes to a descriptor
that claims to have no length. -/
theorem search_endless_iff {σ : Type} (totalLength pos : Nat) (kind : Byte) (s : System σ) :
    (∀ fuel, search fuel totalLength kind pos s = .error .fuel) ↔
      ∃ last, Reaches s.driver.byteAt totalLength kind pos last ∧ Stuck s.driver.byteAt totalLength kind last := by
  have hsearch (fuel : Nat) : search fuel totalLength kind pos s = .error .fuel ↔
      skipTo s.driver.byteAt totalLength kind fuel pos = none := by
    rw [search, run_bind (m := get) (b := s) (t := s) rfl]
    cases skipTo s.driver.byteAt totalLength kind fuel pos with
    | none => exact iff_of_true rfl rfl
    | some r =>
        refine iff_of_false ?_ (Option.some_ne_none r)
        rintro ⟨⟩
  constructor
  · exact fun h => stuck_of_hangs fun fuel => (hsearch fuel).mp (h fuel)
  · rintro ⟨last, hreaches, hstuck⟩ fuel
    exact (hsearch fuel).mpr (hreaches.hangs hstuck fuel)

end ECE385.UsbHost.Descriptors
