import MobilePhoneOs.Drivers.SmsLines
import Mathlib.Tactic.IntervalCases

/-!
# What becomes of a received message

A PDU line that the line buffer holds whole is decoded to what was packed and written out; a
longer one loses its end, and a PDU without its end is refused.
-/

namespace MobilePhoneOs

open UInt8 (ofNat toNat_ofNat' ofNat_toNat)

open List (append_assoc flatMap_cons length_append length_cons length_nil length_take
  mem_cons_of_mem mem_cons_self)
namespace Sms

open Mem At

/-! ## The sink -/

section

variable {fs : (List UInt8 → Option (List UInt8)) → List UInt8 → List UInt8 → Option ℕ}
  {stack : ℕ → UInt8} {m : Modem}

lemma collect_eq {hexbuf line : List UInt8} (h : AllHex line)
    (hlen : hexbuf.length + line.length + 2 ≤ 340) : collect hexbuf line = hexbuf ++ line := by
  induction line generalizing hexbuf with
  | nil => rw [collect, List.append_nil]
  | cons c line ih =>
    rw [length_cons] at hlen
    rw [collect, if_pos (by omega), if_pos (h c mem_cons_self),
      ih (fun d hd => h d (mem_cons_of_mem _ hd))
        (by rw [length_append, List.length_singleton]; omega)]
    rw [append_assoc, List.singleton_append]

lemma urc_header (hm : m.await_pdu = false) (rest : List UInt8) :
    urc_line fs stack m (CMT ++ rest) = { m with await_pdu := true, hexbuf := [] } := by
  have hpre : CMT.isPrefixOf (CMT ++ rest) = true :=
    List.isPrefixOf_iff_prefix.mpr (List.prefix_append _ _)
  rw [urc_line, if_neg (by rw [hm]; decide), if_pos hpre, modem_sms_sink_line, hm]
  rfl

/-- A PDU line without its header is ignored. -/
lemma urc_hex {hex : List UInt8} (hm : m.await_pdu = false) (h : AllHex hex) :
    urc_line fs stack m hex = m := by
  have hpre : CMT.isPrefixOf hex = false := by
    rw [Bool.eq_false_iff]
    intro hp
    exact h.notMem (c := 43) rfl ((List.isPrefixOf_iff_prefix.mp hp).subset (by decide))
  rw [urc_line, if_neg (by rw [hm]; decide), hpre]
  rfl

/-- A PDU line behind its header is taken apart. -/
lemma urc_pdu {hex : List UInt8} (h : AllHex hex) (hlen : hex.length ≤ AT_LINE_MAX - 1) :
    urc_line fs stack { m with await_pdu := true, hexbuf := [] } hex
      = cmt_finish fs stack { m with await_pdu := true, hexbuf := hex } := by
  have hcollect : collect [] hex = hex :=
    collect_eq h (by simp only [AT_LINE_MAX, length_nil] at *; omega)
  rw [urc_line, if_pos rfl, modem_sms_sink_line]
  simp only [Bool.not_true, Bool.false_eq_true, if_false, hcollect]

end

/-! ## The codec -/

lemma gsm_all : ∀ n < 256, (char_to_gsm (ofNat n)).toNat < 128 ∧
    (Supported (ofNat n) → gsm_to_char (char_to_gsm (ofNat n)) = ofNat n) := by
  decide +kernel

lemma char_to_gsm_lt (c : UInt8) : (char_to_gsm c).toNat < 128 := by
  have h := (gsm_all c.toNat c.toNat_lt).1
  rwa [ofNat_toNat] at h

lemma gsm_to_char_to_gsm {c : UInt8} (h : Supported c) : gsm_to_char (char_to_gsm c) = c := by
  have hall := (gsm_all c.toNat c.toNat_lt).2
  rw [ofNat_toNat] at hall
  exact hall h

/-- The septet at a bit position, as the number that the two bytes stand for. -/
lemma septet_toNat (inp : ℕ → UInt8) (bitpos : ℕ) :
    (septet inp bitpos).toNat =
      ((inp (bitpos / 8)).toNat + 256 * (inp (bitpos / 8 + 1)).toNat) / 2 ^ (bitpos % 8) % 128 := by
  have hbyte : bitpos >>> 3 = bitpos / 8 := Nat.shiftRight_eq_div_pow bitpos 3
  have hshift : bitpos &&& 7 = bitpos % 8 := Nat.and_two_pow_sub_one_eq_mod bitpos 3
  have hmask : ∀ g : ℕ, g &&& 0x7f = g % 128 := fun g => Nat.and_two_pow_sub_one_eq_mod g 7
  have hx := (inp (bitpos / 8)).toNat_lt
  rw [septet]
  simp only [hbyte, hshift, hmask, toNat_ofNat']
  generalize (inp (bitpos / 8)).toNat = x at *
  generalize (inp (bitpos / 8 + 1)).toNat = y at *
  have hs : bitpos % 8 < 8 := Nat.mod_lt _ (by decide)
  generalize bitpos % 8 = s at *
  rw [Nat.mod_eq_of_lt (by omega : _ % 128 < 2 ^ 8)]
  by_cases hzero : s = 0
  · rw [if_neg (not_not.mpr hzero), hzero]
    omega
  -- the two parts share no bit, so their union is their sum
  rw [if_pos hzero, Nat.shiftRight_eq_div_pow, Nat.shiftLeft_eq]
  have hhigh : y * 2 ^ (8 - s) % 256 = 2 ^ (8 - s) * (y % 2 ^ s) := by
    interval_cases s <;> omega
  have hlow : x / 2 ^ s < 2 ^ (8 - s) := by
    interval_cases s <;> omega
  rw [hhigh, Nat.or_comm, ← Nat.two_pow_add_eq_or_of_lt hlow]
  interval_cases s <;> omega

/-- A packed septet is a digit of the number in base 128. -/
lemma packNat_digit : ∀ (ss : List ℕ) {i : ℕ} (hi : i < ss.length), (∀ s ∈ ss, s < 128) →
    packNat ss / 128 ^ i % 128 = ss[i] := by
  intro ss
  induction ss with
  | nil => exact fun hi => absurd hi (Nat.not_lt_zero _)
  | cons s ss ih =>
    intro i hi hlt
    have hs := hlt s mem_cons_self
    cases i with
    | zero =>
      rw [packNat, pow_zero, Nat.div_one, List.getElem_cons_zero]
      omega
    | succ i =>
      have hrest := ih (Nat.lt_of_succ_lt_succ hi) fun t ht => hlt t (mem_cons_of_mem _ ht)
      have hdiv : packNat (s :: ss) / 128 ^ (i + 1) = packNat ss / 128 ^ i := by
        rw [Nat.pow_succ', ← Nat.div_div_eq_div_mul, packNat]
        congr 1
        omega
      rw [hdiv, hrest, List.getElem_cons_succ]

lemma leBytes_getElem? (n : ℕ) : ∀ {v j : ℕ}, j < n →
    (leBytes n v)[j]? = some (ofNat (v / 256 ^ j)) := by
  induction n with
  | zero => exact fun hj => absurd hj (Nat.not_lt_zero _)
  | succ n ih =>
    intro v j hj
    cases j with
    | zero => rw [leBytes, List.getElem?_cons_zero, pow_zero, Nat.div_one]
    | succ j =>
      rw [leBytes, List.getElem?_cons_succ, ih (Nat.lt_of_succ_lt_succ hj), Nat.pow_succ',
        Nat.div_div_eq_div_mul]

variable {inp : ℕ → UInt8}

/-- The septet of a character of the packed text, whatever lies behind the last byte. -/
lemma septet_pack {text : List UInt8} {i : ℕ} (hi : i < text.length)
    (hinp : ∀ j b, (pack text)[j]? = some b → inp j = b) :
    septet inp (7 * i) = char_to_gsm text[i] := by
  set n := packNat (text.map fun c => (char_to_gsm c).toNat) with hn
  have hbyte : ∀ j, 8 * j < 7 * text.length → (inp j).toNat = n / 256 ^ j % 256 := by
    intro j hj
    rw [hinp j _ (leBytes_getElem? _ (by omega)), toNat_ofNat', ← hn]
  have hdigit : n / 128 ^ i % 128 = (char_to_gsm text[i]).toNat := by
    have h := packNat_digit (text.map fun c => (char_to_gsm c).toNat) (i := i)
      (by rwa [List.length_map]) (by
        intro s hs
        obtain ⟨c, _, rfl⟩ := List.mem_map.mp hs
        exact char_to_gsm_lt c)
    rwa [List.getElem_map] at h
  have hpow : 128 ^ i = 256 ^ (7 * i / 8) * 2 ^ (7 * i % 8) := by
    rw [show (128 : ℕ) = 2 ^ 7 from rfl, show (256 : ℕ) = 2 ^ 8 from rfl, ← Nat.pow_mul,
      ← Nat.pow_mul, ← Nat.pow_add, Nat.div_add_mod]
  have hlow := hbyte (7 * i / 8) (by omega)
  have hhigh : 2 ≤ 7 * i % 8 →
      (inp (7 * i / 8 + 1)).toNat = n / 256 ^ (7 * i / 8) / 256 % 256 := by
    intro hs
    rw [hbyte (7 * i / 8 + 1) (by omega), Nat.pow_succ, Nat.div_div_eq_div_mul]
  rw [← UInt8.toNat_inj, septet_toNat, ← hdigit, hpow, ← Nat.div_div_eq_div_mul, hlow]
  generalize n / 256 ^ (7 * i / 8) = q at *
  have hs : 7 * i % 8 < 8 := Nat.mod_lt _ (by decide)
  generalize 7 * i % 8 = s at *
  generalize (inp (7 * i / 8 + 1)).toNat = y at *
  interval_cases s <;> omega

/-- The text that was packed, as far as there is room for it. -/
lemma decodeFrom_pack {text : List UInt8} (hsup : ∀ c ∈ text, Supported c)
    (hinp : ∀ j b, (pack text)[j]? = some b → inp j = b) (cap : ℕ) : ∀ {k i : ℕ},
    i + k = text.length → decodeFrom inp cap k i = (text.drop i).take (cap - 1 - i) := by
  intro k
  induction k with
  | zero =>
    intro i hi
    rw [decodeFrom, List.drop_eq_nil_of_le (by omega), List.take_nil]
  | succ k ih =>
    intro i hi
    rw [decodeFrom]
    by_cases hcap : i + 1 ≥ cap
    · rw [if_pos hcap, show cap - 1 - i = 0 by omega, List.take_zero]
    · have hlt : i < text.length := by omega
      rw [if_neg hcap, septet_pack hlt hinp, gsm_to_char_to_gsm (hsup _ (List.getElem_mem hlt)),
        ih (by omega), List.drop_eq_getElem_cons hlt,
        show cap - 1 - i = cap - 1 - (i + 1) + 1 by omega, List.take_succ_cons]

/-- Digits in nibbles come back one by one. -/
lemma bcd_nibble {number : List UInt8} (hdig : ∀ c ∈ number, 48 ≤ c ∧ c ≤ 57) : ∀ {i : ℕ}
    (hi : i < number.length), ∃ b, (bcd number)[i / 2]? = some b ∧
      (if i % 2 = 1 then b.toNat >>> 4 else b.toNat &&& 0x0f) = (number[i]).toNat - 48 := by
  have hlow : ∀ g : ℕ, g &&& 0x0f = g % 16 := fun g => Nat.and_two_pow_sub_one_eq_mod g 4
  have hrange : ∀ c ∈ number, 48 ≤ c.toNat ∧ c.toNat ≤ 57 := fun c hc => hdig c hc
  clear hdig
  induction number using bcd.induct with
  | case1 =>
    intro i hi
    exact absurd hi (Nat.not_lt_zero _)
  | case2 a =>
    intro i hi
    obtain rfl : i = 0 := by
      rw [List.length_singleton] at hi
      omega
    have ha := hrange a mem_cons_self
    refine ⟨_, rfl, ?_⟩
    rw [if_neg (by decide), hlow, toNat_ofNat', List.getElem_cons_zero]
    omega
  | case3 a b digits ih =>
    intro i hi
    have ha := hrange a mem_cons_self
    have hb := hrange b (mem_cons_of_mem _ mem_cons_self)
    match i with
    | 0 =>
      refine ⟨_, rfl, ?_⟩
      rw [if_neg (by decide), hlow, toNat_ofNat', List.getElem_cons_zero]
      omega
    | 1 =>
      refine ⟨_, rfl, ?_⟩
      rw [if_pos (by decide), toNat_ofNat', Nat.shiftRight_eq_div_pow]
      show _ = b.toNat - 48
      omega
    | i + 2 =>
      obtain ⟨x, hx, hval⟩ := ih
        (fun c hc => hrange c (mem_cons_of_mem _ (mem_cons_of_mem _ hc))) (i := i)
        (by simpa using hi)
      refine ⟨x, ?_, ?_⟩
      · rw [bcd, show (i + 2) / 2 = i / 2 + 1 by omega, List.getElem?_cons_succ]
        exact hx
      · rw [show (i + 2) % 2 = i % 2 by omega]
        exact hval

lemma bcd_length (number : List UInt8) : (bcd number).length = (number.length + 1) / 2 := by
  induction number using bcd.induct with
  | case1 => rfl
  | case2 a => simp [bcd]
  | case3 a b digits ih =>
    rw [bcd, length_cons, ih, length_cons, length_cons]
    omega

/-- The number that was packed, as far as there is room for it. -/
lemma digitsFrom_bcd {number : List UInt8}
    (hdig : ∀ c ∈ number, 48 ≤ c ∧ c ≤ 57)
    (hinp : ∀ j b, (bcd number)[j]? = some b → inp j = b) (cap : ℕ) : ∀ {k i : ℕ},
    i + k = number.length → digitsFrom inp cap k i = (number.drop i).take (cap - 1 - i) := by
  intro k
  induction k with
  | zero =>
    intro i hi
    rw [digitsFrom, List.drop_eq_nil_of_le (by omega), List.take_nil]
  | succ k ih =>
    intro i hi
    rw [digitsFrom]
    by_cases hcap : i + 1 < cap
    · have hlt : i < number.length := by omega
      obtain ⟨b, hb, hval⟩ := bcd_nibble hdig hlt
      obtain ⟨hlo, hhi⟩ : 48 ≤ (number[i]).toNat ∧ (number[i]).toNat ≤ 57 :=
        hdig _ (List.getElem_mem hlt)
      have hchar : ofNat (48 + ((number[i]).toNat - 48)) = number[i] := by
        rw [Nat.add_sub_cancel' hlo, ofNat_toNat]
      rw [if_pos hcap, hinp _ _ hb]
      simp only [hval]
      rw [if_neg (by omega), hchar, ih (by omega), List.drop_eq_getElem_cons hlt,
        show cap - 1 - i = cap - 1 - (i + 1) + 1 by omega, List.take_succ_cons]
    · rw [if_neg hcap, show cap - 1 - i = 0 by omega, List.take_zero]

/-! ## The PDU -/

/-- The two digits of a byte. -/
def nibs (b : UInt8) : List (Option ℕ) := [some (b.toNat / 16), some (b.toNat % 16)]

lemma nibs_all : ∀ n < 256, ofNat ((n / 16) <<< 4 ||| n % 16) = ofNat n := by
  decide +kernel

lemma ofNat_nibs (b : UInt8) : ofNat ((b.toNat / 16) <<< 4 ||| b.toNat % 16) = b := by
  rw [nibs_all b.toNat b.toNat_lt, ofNat_toNat]

/-- Digits become bytes; half a byte at the end only touches what is behind them. -/
lemma fillPdu_spec : ∀ {bs hex : List UInt8} {rest : List (Option ℕ)} {k : ℕ}
    (buf : ℕ → UInt8), hex.map hexval = bs.flatMap nibs ++ rest → rest.length ≤ 1 →
    k + bs.length ≤ 170 →
    (∀ j b, bs[j]? = some b → fillPdu hex k buf (k + j) = b) ∧
      ∀ j < k, fillPdu hex k buf j = buf j := by
  intro bs
  induction bs with
  | nil =>
    intro hex rest k buf hhex hrest hk
    refine ⟨fun j b hb => absurd hb (by simp), fun j hj => ?_⟩
    have hlen : hex.length ≤ 1 := by
      rw [← List.length_map (f := hexval), hhex, List.flatMap_nil, List.nil_append]
      exact hrest
    match hex with
    | [] => rfl
    | [a] =>
      rw [fillPdu]
      split
      · cases hexval a with
        | some hi => exact Function.update_of_ne (by omega) _ _
        | none => rfl
      · rfl
    | a :: b :: hex =>
      simp only [length_cons] at hlen
      omega
  | cons c bs ih =>
    intro hex rest k buf hhex hrest hk
    rw [length_cons] at hk
    match hex with
    | [] => exact absurd hhex (by simp [nibs])
    | [a] => exact absurd hhex (by simp [nibs])
    | a :: b :: hex =>
      rw [flatMap_cons, nibs] at hhex
      obtain ⟨ha, hhex⟩ := List.cons.inj hhex
      obtain ⟨hb, hhex⟩ := List.cons.inj hhex
      have hfill : fillPdu (a :: b :: hex) k buf
          = fillPdu hex (k + 1) (Function.update buf k c) := by
        rw [fillPdu, if_pos (by omega), ha, hb]
        simp only [ofNat_nibs]
      obtain ⟨hnew, hold⟩ := ih (k := k + 1) (Function.update buf k c) hhex hrest (by omega)
      rw [hfill]
      refine ⟨fun j x hx => ?_, fun j hj => ?_⟩
      · cases j with
        | zero =>
          obtain rfl := Option.some.inj hx
          show fillPdu hex (k + 1) _ k = c
          rw [hold k (Nat.lt_succ_self k), Function.update_self]
        | succ j =>
          rw [show k + (j + 1) = k + 1 + j by omega]
          exact hnew j x hx
      · rw [hold j (by omega), Function.update_of_ne (by omega)]

/-- An odd number of digits is a number of bytes and at most one digit. -/
lemma take_nibs : ∀ (bs : List UInt8) (j : ℕ), ∃ rest : List (Option ℕ), rest.length ≤ 1 ∧
    (bs.flatMap nibs).take (2 * j + 1) = (bs.take j).flatMap nibs ++ rest := by
  intro bs
  induction bs with
  | nil => exact fun j => ⟨[], by simp, by simp⟩
  | cons b bs ih =>
    intro j
    cases j with
    | zero => exact ⟨[some (b.toNat / 16)], by simp, rfl⟩
    | succ j =>
      obtain ⟨rest, hlen, heq⟩ := ih j
      refine ⟨rest, hlen, ?_⟩
      rw [List.take_succ_cons, flatMap_cons, flatMap_cons, append_assoc, ← heq]
      rfl

section

variable {d : Deliver}

lemma pdu_eq (d : Deliver) : d.pdu = [d.flags, ofNat d.number.length, d.toa] ++
    (bcd d.number ++
      ([d.pid, d.dcs] ++ d.scts ++ ([ofNat d.text.length] ++ pack d.text))) := by
  simp [Deliver.pdu]

lemma pdu_length (h : d.WellFormed) : d.pdu.length =
    13 + (d.number.length + 1) / 2 + (7 * d.text.length + 7) / 8 := by
  rw [pdu_eq]
  simp only [length_append, length_cons, length_nil, bcd_length, h.scts, pack,
    leBytes_length]
  omega

lemma pdu_number {j : ℕ} {b : UInt8} (hb : (bcd d.number)[j]? = some b) :
    d.pdu[3 + j]? = some b := by
  obtain ⟨hlt, _⟩ := List.getElem?_eq_some_iff.mp hb
  rw [pdu_eq, List.getElem?_append_right (by simp), length_cons, length_cons,
    length_cons, length_nil, Nat.add_sub_cancel_left, List.getElem?_append_left hlt]
  exact hb

/-- The part behind the number. -/
lemma pdu_tail (j : ℕ) : d.pdu[3 + (d.number.length + 1) / 2 + j]? =
    ([d.pid, d.dcs] ++ d.scts ++ ([ofNat d.text.length] ++ pack d.text))[j]? := by
  rw [pdu_eq, Nat.add_assoc, List.getElem?_append_right (by simp), length_cons,
    length_cons, length_cons, length_nil, Nat.add_sub_cancel_left,
    List.getElem?_append_right (by rw [bcd_length]; omega), bcd_length, Nat.add_sub_cancel_left]

lemma pdu_septets (h : d.WellFormed) :
    d.pdu[3 + (d.number.length + 1) / 2 + 2 + 7]? = some (ofNat d.text.length) := by
  have hlen : ([d.pid, d.dcs] ++ d.scts).length = 9 := by simp [h.scts]
  rw [Nat.add_assoc _ 2 7, pdu_tail, List.getElem?_append_right hlen.le, hlen]
  rfl

lemma pdu_text (h : d.WellFormed) {j : ℕ} {b : UInt8} (hb : (pack d.text)[j]? = some b) :
    d.pdu[3 + (d.number.length + 1) / 2 + 2 + 7 + 1 + j]? = some b := by
  have hlen : ([d.pid, d.dcs] ++ d.scts).length = 9 := by simp [h.scts]
  rw [show 3 + (d.number.length + 1) / 2 + 2 + 7 + 1 + j
    = 3 + (d.number.length + 1) / 2 + (9 + (1 + j)) by omega, pdu_tail,
    List.getElem?_append_right (by omega), hlen, Nat.add_sub_cancel_left,
    List.getElem?_append_right (by simp), List.length_singleton, Nat.add_sub_cancel_left]
  exact hb

/-- A PDU that has come whole is decoded to what was sent, as far as the fields have room, and
one that has lost its end is refused. -/
lemma parse_spec (h : d.WellFormed) {buf : ℕ → UInt8} {len senderCap textCap : ℕ} (hlo : 2 ≤ len)
    (hle : len ≤ d.pdu.length) (hbuf : ∀ i b, i < len → d.pdu[i]? = some b → buf i = b) :
    sms_parse_deliver_pdu buf len senderCap textCap =
      if d.pdu.length ≤ len then
        some (d.number.take (senderCap - 1), d.text.take (textCap - 1))
      else none := by
  have hlen := pdu_length h
  have hnum : (buf 1).toNat = d.number.length := by
    rw [hbuf 1 _ (by omega) rfl, toNat_ofNat', Nat.mod_eq_of_lt h.number]
  rw [sms_parse_deliver_pdu, if_neg (by omega)]
  simp only [hnum]
  by_cases hhead : 3 + (d.number.length + 1) / 2 + 2 + 7 + 1 > len
  · rw [if_pos hhead, if_neg (by omega)]
  rw [if_neg hhead]
  have hudl : (buf (3 + (d.number.length + 1) / 2 + 2 + 7)).toNat = d.text.length := by
    have hseptets := h.septets
    rw [hbuf _ _ (by omega) (pdu_septets h), toNat_ofNat', Nat.mod_eq_of_lt (by omega)]
  simp only [hudl]
  by_cases hall : d.pdu.length ≤ len
  · have hdig : addr_bcd_decode (fun i => buf (3 + i)) d.number.length senderCap
        = d.number.take (senderCap - 1) := by
      refine digitsFrom_bcd h.digits (fun j b hb => ?_) senderCap (Nat.zero_add _)
      have hin := pdu_number hb
      exact hbuf _ _ ((List.getElem?_eq_some_iff.mp hin).1.trans_le hall) hin
    have htext : sms_decode_7bit (fun i => buf (3 + (d.number.length + 1) / 2 + 2 + 7 + 1 + i))
        d.text.length textCap = d.text.take (textCap - 1) := by
      refine decodeFrom_pack h.text (fun j b hb => ?_) textCap (Nat.zero_add _)
      have hin := pdu_text h hb
      exact hbuf _ _ ((List.getElem?_eq_some_iff.mp hin).1.trans_le hall) hin
    rw [if_pos hall, if_neg (by omega), hdig, htext]
  · rw [if_neg hall, if_pos (by omega)]

end

/-! ## The message store -/

section

variable {fs : (List UInt8 → Option (List UInt8)) → List UInt8 → List UInt8 → Option ℕ}
  {stack : ℕ → UInt8} {m : Modem} {d : Deliver} {hex : List UInt8}

lemma isHex_all (h : IsHex hex d.pdu) : AllHex hex := by
  intro c hc
  have hmem : hexval c ∈ d.pdu.flatMap nibs := by
    have hmap : hexval c ∈ hex.map hexval := List.mem_map_of_mem hc
    rwa [h] at hmap
  obtain ⟨b, _, hb⟩ := List.mem_flatMap.mp hmem
  rcases List.mem_cons.mp hb with hb | hb
  · rw [hb]
    rfl
  · rw [List.mem_singleton.mp hb]
    rfl

lemma isHex_length (h : IsHex hex d.pdu) : hex.length = 2 * d.pdu.length := by
  have hlen := congrArg List.length (h : hex.map hexval = d.pdu.flatMap nibs)
  rw [List.length_map] at hlen
  rw [hlen]
  clear h hlen
  induction d.pdu with
  | nil => rfl
  | cons b bs ih =>
    rw [flatMap_cons, length_append, ih, length_cons]
    show 2 + 2 * bs.length = 2 * (bs.length + 1)
    omega

variable (stack) in
/-- What is left of the digits after the line buffer becomes a message when it is all of them. -/
lemma parse_hex (hd : d.WellFormed) (h : IsHex hex d.pdu) :
    sms_parse_deliver_pdu (fillPdu (hex.take (AT_LINE_MAX - 1)) 0 stack)
        ((hex.take (AT_LINE_MAX - 1)).length / 2) SMS_ADDR_MAX SMS_TEXT_MAX =
      if d.pdu.length ≤ 79 then some (d.number.take 19, d.text.take 159) else none := by
  have hlen := isHex_length h
  have hpdu := pdu_length hd
  obtain ⟨rest, hrest, htake⟩ := take_nibs d.pdu 79
  have hmap : (hex.take (AT_LINE_MAX - 1)).map hexval = (d.pdu.take 79).flatMap nibs ++ rest := by
    rw [List.map_take, h]
    exact htake
  have hbytes := (fillPdu_spec (k := 0) stack hmap hrest
    (by rw [length_take]; omega)).1
  have hplen : (hex.take (AT_LINE_MAX - 1)).length / 2 = min d.pdu.length 79 := by
    rw [length_take, hlen]
    simp only [AT_LINE_MAX]
    omega
  rw [hplen, parse_spec hd (by omega) (Nat.min_le_left _ _) fun i b hi hb => ?_]
  · by_cases hall : d.pdu.length ≤ 79
    · rw [if_pos (by omega), if_pos hall]
      rfl
    · rw [if_neg (by omega), if_neg hall]
  · have hin : (d.pdu.take 79)[i]? = some b := by
      rw [List.getElem?_take_of_lt (by omega)]
      exact hb
    have := hbytes i b hin
    rwa [Nat.zero_add] at this

lemma append_drop_eq_self {old line : List UInt8} :
    line ++ old.drop line.length = line ↔ old.length ≤ line.length := by
  rw [List.append_right_eq_self, List.drop_eq_nil_iff]

/-- A number that was cut puts the newline where a digit belongs. -/
lemma inboxLine_cut {number text : List UInt8} (hdig : ∀ c ∈ number, 48 ≤ c ∧ c ≤ 57)
    (hlong : 20 ≤ number.length) : inboxLine (number.take 19) text ≠ inboxLine number text := by
  intro heq
  have hat := congrArg (fun l => l[24]?) heq
  have hleft : (inboxLine (number.take 19) text)[24]? = some LF := by
    have hlen : (ascii ['F', 'R', 'O', 'M', ' '] ++ number.take 19).length = 24 := by
      rw [length_append, length_take]
      show 5 + min 19 number.length = 24
      omega
    rw [inboxLine, append_assoc, List.getElem?_append_right hlen.le, hlen]
    rfl
  have hright : (inboxLine number text)[24]? = some number[19] := by
    have hlt : 19 < number.length := by omega
    rw [inboxLine, append_assoc, append_assoc,
      List.getElem?_append_right (by decide : (ascii ['F', 'R', 'O', 'M', ' ']).length ≤ 24)]
    show (number ++ _)[19]? = _
    rw [List.getElem?_append_left hlt, List.getElem?_eq_getElem hlt]
  have hlf : LF = number[19] := by
    rw [← Option.some_inj, ← hleft, ← hright]
    exact hat
  have hdigit := (hdig _ (List.getElem_mem (by omega : 19 < number.length))).1
  rw [← hlf] at hdigit
  exact absurd hdigit (by decide)

/-- What the store makes of a sender and a text is the message exactly when they are its own,
the write is taken whole and covers the old file. -/
lemma stored_inbox (m₁ : Modem) {sender text : List UInt8} (hwrites : m₁.writes = m.writes)
    (hfiles : m₁.files = m.files) (hseq : m₁.msg_seq = m.msg_seq) :
    Stored m { sms_store_inbox fs m₁ sender text with await_pdu := false } d ↔
      inboxLine sender text = inboxLine d.number d.text ∧
        fs m.files (msgPath (m.msg_seq + 1)) (inboxLine sender text) =
          some (inboxLine sender text).length ∧
        ∀ old, m.files (msgPath (m.msg_seq + 1)) = some old →
          old.length ≤ (inboxLine sender text).length := by
  rw [Stored, sms_store_inbox, hfiles, hseq]
  cases hanswer : fs m.files (msgPath (m.msg_seq + 1)) (inboxLine sender text) with
  | none =>
    refine iff_of_false (fun h => ?_) fun h => absurd h.2.1 (by simp)
    have hsame : m₁.writes = _ := h.1
    rw [hwrites] at hsame
    exact absurd hsame.symm (List.cons_ne_self _ _)
  | some n =>
    simp only [hwrites, List.cons.injEq, Prod.mk.injEq, true_and, and_true, Option.some.injEq,
      Function.update_self]
    constructor
    · rintro ⟨⟨hline, rfl⟩, hfile⟩
      refine ⟨hline, by rw [hline], fun old hold => ?_⟩
      rw [hold, ← hline, overwrite, List.take_length] at hfile
      exact append_drop_eq_self.mp hfile
    · rintro ⟨hline, rfl, hold⟩
      refine ⟨⟨hline, by rw [hline]⟩, ?_⟩
      rw [← hline, overwrite, List.take_length, append_drop_eq_self]
      cases hfile : m.files (msgPath (m.msg_seq + 1)) with
      | none => exact Nat.zero_le _
      | some old => exact hold old hfile

/-- The message is stored as it was sent exactly when it fits. -/
lemma stored_finish (hd : d.WellFormed) (h : IsHex hex d.pdu) :
    Stored m (cmt_finish fs stack
      { m with await_pdu := true, hexbuf := hex.take (AT_LINE_MAX - 1) }) d ↔ Fits fs m d := by
  have hpdu := pdu_length hd
  have hparse := parse_hex stack hd h
  rw [cmt_finish]
  simp only [hparse]
  by_cases hall : d.pdu.length ≤ 79
  · have htext : d.text.take 159 = d.text := List.take_of_length_le (by omega)
    rw [if_pos hall]
    simp only [htext]
    refine (stored_inbox { m with await_pdu := true, hexbuf := hex.take (AT_LINE_MAX - 1) }
      rfl rfl rfl).trans ?_
    by_cases hshort : d.number.length ≤ 19
    · rw [List.take_of_length_le hshort]
      exact ⟨fun h => ⟨by omega, hshort, h.2⟩, fun h => ⟨rfl, h.2.2⟩⟩
    · exact iff_of_false (fun h => inboxLine_cut hd.digits (by omega) h.1)
        fun hfits => hshort hfits.2.1
  · rw [if_neg hall]
    refine iff_of_false (fun hst => ?_) fun hfits => hall (by have := hfits.1; omega)
    exact absurd hst.1.symm (List.cons_ne_self _ _)

end

/-! ## The law -/

section

variable {fs : (List UInt8 → Option (List UInt8)) → List UInt8 → List UInt8 → Option ℕ}
  {stack : ℕ → UInt8} {react : List Ev → List Submit} {boot : Modem} {e : Engine}

/-- The PDU is taken apart as far as the line buffer kept it, unless a pending command got one
of the two lines. -/
lemma modem_run {evs : List Event} {d : Deliver} {header hex : List UInt8}
    (hrest : Rest (modemOf fs stack boot e.log) e) (hd : d.WellFormed) (hheader : LF ∉ header)
    (hhex : IsHex hex d.pdu) (hbytes : bytesOf evs = lines header hex) :
    (Clear react e evs ∧ modemOf fs stack boot (run react e evs).log = cmt_finish fs stack
        { modemOf fs stack boot e.log with
          await_pdu := true, hexbuf := hex.take (AT_LINE_MAX - 1) }) ∨
      (¬ Clear react e evs ∧ (modemOf fs stack boot (run react e evs).log).writes =
        (modemOf fs stack boot e.log).writes) := by
  have hall := isHex_all hhex
  have hne : hex ≠ [] := by
    intro hnil
    have hlen := isHex_length hhex
    have hpdu := pdu_length hd
    rw [hnil, length_nil] at hlen
    omega
  obtain ⟨rest, p₁, p₂, hclear, hurcs⟩ :=
    lines_delivered hrest.line hrest.handler hheader hall hne hbytes
  have hkept : AllHex (hex.take (AT_LINE_MAX - 1)) := fun c hc => hall c (List.mem_of_mem_take hc)
  rw [hclear, modemOf_eq fs stack boot (run react e evs).log, hurcs, List.foldr_append,
    List.foldr_append, ← modemOf_eq]
  generalize modemOf fs stack boot e.log = m at *
  have hwait := hrest.await
  cases p₁ with
  | true =>
    -- the header went to the pending command
    refine .inr ⟨fun h => Bool.noConfusion h.1, ?_⟩
    cases p₂ with
    | true => rfl
    | false => exact congrArg Modem.writes (urc_hex hwait hkept)
  | false =>
    have hheard : List.foldr (fun line m => urc_line fs stack m line) m [CMT ++ rest]
        = { m with await_pdu := true, hexbuf := [] } := urc_header hwait rest
    simp only [Bool.false_eq_true, if_false]
    rw [hheard]
    cases p₂ with
    | true => exact .inr ⟨fun h => Bool.noConfusion h.2, rfl⟩
    | false =>
      refine .inl ⟨⟨trivial, rfl⟩, urc_pdu hkept ?_⟩
      rw [length_take]
      exact Nat.min_le_left _ _

/-- A message is stored as it was sent, in any interleaving of its bytes with ticks and submits,
exactly when no command is pending at the end of its lines, its PDU has no more bytes than the
line buffer holds, its number has at most 19 digits, the file system takes it and no longer file
of its name is there. -/
theorem message_stored {evs : List Event} {d : Deliver} {header hex : List UInt8}
    (hrest : Rest (modemOf fs stack boot e.log) e) (hd : d.WellFormed) (hheader : LF ∉ header)
    (hhex : IsHex hex d.pdu) (hbytes : bytesOf evs = lines header hex) :
    Stored (modemOf fs stack boot e.log) (modemOf fs stack boot (run react e evs).log) d ↔
      Clear react e evs ∧ Fits fs (modemOf fs stack boot e.log) d := by
  rcases modem_run hrest hd hheader hhex hbytes with ⟨hc, hm⟩ | ⟨hc, hsame⟩
  · rw [hm, stored_finish hd hhex]
    exact (and_iff_right hc).symm
  · refine iff_of_false (fun hst => ?_) fun h => hc h.1
    exact absurd (hst.1.symm.trans hsame) (List.cons_ne_self _ _)

end

/-! ### Two messages -/

/-- A digit as modems write it. -/
def hexDigit (n : ℕ) : UInt8 := ofNat (if n < 10 then 48 + n else 55 + n)

def hexLine (pdu : List UInt8) : List UInt8 :=
  pdu.flatMap fun b => [hexDigit (b.toNat / 16), hexDigit (b.toNat % 16)]

lemma isHex_hexLine (pdu : List UInt8) : IsHex (hexLine pdu) pdu := by
  have hdigit : ∀ n < 16, hexval (hexDigit n) = some n := by decide
  rw [IsHex, hexLine]
  induction pdu with
  | nil => rfl
  | cons b pdu ih =>
    rw [flatMap_cons, List.map_append, ih, flatMap_cons]
    have hb := b.toNat_lt
    simp only [List.map_cons, List.map_nil, hdigit _ (by omega : b.toNat / 16 < 16),
      hdigit _ (by omega : b.toNat % 16 < 16)]

/-- A message from 5551234. -/
def fromNumber (text : List UInt8) : Deliver where
  flags := 4
  toa := 0x81
  pid := 0
  dcs := 0
  scts := List.replicate 7 0
  number := ascii ['5', '5', '5', '1', '2', '3', '4']
  text := text

lemma fromNumber_digits (text : List UInt8) : ∀ c ∈ (fromNumber text).number, 48 ≤ c ∧ c ≤ 57 := by
  simp only [fromNumber, ascii, List.map_cons, List.map_nil, List.forall_mem_cons,
    List.not_mem_nil, false_implies, implies_true, and_true]
  decide

/-- The modem with an empty store. -/
def noMessages : Modem := ⟨false, [], 0, fun _ => none, []⟩

/-- The engine after `modem_subsys_init`. -/
def idle : Engine := at_engine_init.at_engine_set_urc_handler true

/-- A short message in two ticks, cut inside its header. -/
theorem message_stored_short :
    let d := fromNumber (ascii ['H', 'I'])
    let bytes := lines (ascii [' ', ',', '1', '9']) (hexLine d.pdu)
    let evs := tickEvents [bytes.take 3] 1 ++ tickEvents [bytes.drop 3] 2
    let modem := modemOf (fun _ _ line => some line.length) (fun _ => 0) noMessages
    Stored (modem idle.log) (modem (run (fun _ => []) idle evs).log) d := by
  have hform : (fromNumber (ascii ['H', 'I'])).WellFormed := by
    refine ⟨rfl, fromNumber_digits _, by decide, ?_, by decide⟩
    simp only [fromNumber, ascii, List.map_cons, List.map_nil, List.forall_mem_cons,
      List.not_mem_nil, false_implies, implies_true, and_true]
    decide
  have hheader : LF ∉ ascii [' ', ',', '1', '9'] := by decide
  exact (message_stored ⟨rfl, rfl, rfl⟩ hform hheader (isHex_hexLine _)
    (by decide +kernel)).mpr ⟨by decide +kernel, by decide, by decide, rfl, by rintro _ ⟨⟩⟩

/-! A handler that makes no submits leaves an idle engine idle. -/

section

variable {e : Engine}

lemma deliver_idle (status : Status) : (e.deliver (fun _ => []) status).pending = false := by
  unfold Engine.deliver
  split <;> rfl

lemma line_consume_idle (h : e.pending = false) (line : List UInt8) :
    (e.line_consume (fun _ => []) line).pending = false := by
  have herror : (e.deliver_error (fun _ => []) .error).pending = false := deliver_idle _
  unfold Engine.line_consume
  split
  · exact deliver_idle _
  split
  · exact herror
  split <;> split <;> exact h

lemma rx_idle (h : e.pending = false) (c : UInt8) :
    (e.rx (fun _ => []) c).pending = false := by
  have hbyte : ∀ e' : Engine, e'.pending = false →
      (if c = LF then
          { if e'.line = [] then e' else e'.line_consume (fun _ => []) (Engine.cstr e'.line) with
            line := [] }
        else if c ≠ CR ∧ e'.line.length + 1 < AT_LINE_MAX then { e' with line := e'.line ++ [c] }
        else e').pending = false := by
    intro e' h'
    split
    · split
      · exact h'
      · exact line_consume_idle h' _
    split <;> exact h'
  -- the prompt is a line of its own
  have hprompt : ∀ e' : Engine, e'.pending = false →
      (if c = GT ∧ e'.line = [GT] ∧ e'.pending then
        ({ e' with line := [] } : Engine).line_consume (fun _ => []) [GT, 32]
      else e').pending = false := by
    intro e' h'
    split
    · exact @line_consume_idle { e' with line := [] } h' _
    · exact h'
  exact hprompt _ (hbyte (e.record (.byte c)) h)

lemma clear_of_idle (bytes : List UInt8) :
    ∀ {e : Engine}, e.pending = false → Clear (fun _ => []) e (bytes.map Event.rx) := by
  induction bytes with
  | nil => exact fun _ => trivial
  | cons c bytes ih => exact fun h => ⟨fun _ => h, ih (rx_idle h c)⟩

end

/-- A message of 160 characters is lost: its line is longer than the buffer. -/
theorem long_message_lost :
    ¬ ∀ (boot : Modem) (e : Engine) (evs : List Event) (d : Deliver) (header hex : List UInt8),
      Rest (modemOf (fun _ _ line => some line.length) (fun _ => 0) boot e.log) e →
      d.WellFormed → LF ∉ header → IsHex hex d.pdu → bytesOf evs = lines header hex →
      Clear (fun _ => []) e evs →
      Stored (modemOf (fun _ _ line => some line.length) (fun _ => 0) boot e.log)
        (modemOf (fun _ _ line => some line.length) (fun _ => 0) boot
          (run (fun _ => []) e evs).log) d := by
  intro hall
  set d := fromNumber (List.replicate 160 65) with hd
  have htext : d.text.length = 160 := List.length_replicate
  have hform : d.WellFormed := by
    refine ⟨rfl, fromNumber_digits _, by decide, fun c hc => ?_, htext.le⟩
    rw [List.eq_of_mem_replicate hc]
    decide
  have hheader : LF ∉ ascii [' ', ',', '1', '5', '7'] := by decide
  set bytes := lines (ascii [' ', ',', '1', '5', '7']) (hexLine d.pdu) with hbytes
  have hsame : bytesOf (bytes.map Event.rx) = bytes := by
    rw [bytesOf, List.filterMap_map]
    exact List.filterMap_some
  have hrest : Rest (modemOf (fun _ _ line => some line.length) (fun _ => 0) noMessages idle.log)
      idle := ⟨rfl, rfl, rfl⟩
  have hclear : Clear (fun _ => []) idle (bytes.map Event.rx) := clear_of_idle bytes rfl
  have hstored := hall noMessages idle (bytes.map Event.rx) d _ _ hrest hform hheader
    (isHex_hexLine _) hsame hclear
  obtain ⟨_, hm⟩ := (modem_run hrest hform hheader (isHex_hexLine _) hsame).resolve_right
    fun h => h.1 hclear
  rw [hm] at hstored
  have hfits := (stored_finish hform (isHex_hexLine _)).mp hstored
  have hshort := hfits.1
  rw [htext] at hshort
  omega

end Sms
end MobilePhoneOs
