import MobilePhoneOs.Net.WireTheorems

/-!
# Which headers `ipv4_input` accepts

The sum over a header with its checksum in place is all ones when the header is right. The test
of `ipv4_input` also accepts a header whose checksum field is the complement of that sum, which
is another condition altogether.
-/

namespace MobilePhoneOs.Net

variable {nif : Netif} {pkt : List UInt8}

/-! ## Headers -/

def headerLen (pkt : List UInt8) : ℕ := beNat (field pkt 0 1) % 16 * 4

def totalLen (pkt : List UInt8) : ℕ := beNat (field pkt 2 2)

def header (pkt : List UInt8) : List UInt8 := pkt.take (headerLen pkt)

/-- The checksum field. -/
def csumField (pkt : List UInt8) : ℕ := beNat (field pkt 10 2)

/-- The version is 4, and the lengths agree with each other and with what was received. -/
structure Consistent (pkt : List UInt8) : Prop where
  received : 20 ≤ pkt.length
  version : beNat (field pkt 0 1) / 16 = 4
  header_ge : 20 ≤ headerLen pkt
  header_le : headerLen pkt ≤ pkt.length
  total_ge : headerLen pkt ≤ totalLen pkt
  total_le : totalLen pkt ≤ pkt.length

/-- The packet is addressed to the interface, to all or to the loopback. -/
def ForUs (nif : Netif) (pkt : List UInt8) : Prop :=
  ip4Unpack (field pkt 16 4) = nif.ipAddr ∨ ip4Unpack (field pkt 16 4) = IP4_BROADCAST ∨
    ip4Unpack (field pkt 16 4) = IP4_LOOPBACK

/-- The sum with the checksum once more is a multiple of 65535, and the checksum is none. -/
def Weak (pkt : List UInt8) : Prop :=
  (0 < csumField pkt ∧ csumField pkt < 65535) ∧
    (csumField pkt + wordSum (header pkt)) % 65535 = 0

/-- `ipv4_input` passes the packet on. -/
def Passes (nif : Netif) (pkt : List UInt8) : Prop := ipv4Input nif pkt ≠ none

/-- Only packets with consistent lengths and a right sum are passed on. -/
def Sound (nif : Netif) (pkt : List UInt8) : Prop :=
  Passes nif pkt → Consistent pkt ∧ Verifies (wordSum (header pkt))

/-- The packet with other bytes in word `k`. -/
def corrupt (pkt : List UInt8) (k : ℕ) (a b : UInt8) : List UInt8 :=
  (pkt.set (2 * k) a).set (2 * k + 1) b

/-- Word `k` of the header becomes another number, and not the other zero. -/
structure WordChange (pkt : List UInt8) (k : ℕ) (a b : UInt8) : Prop where
  inside : 2 * k + 1 < headerLen pkt
  differs : beNat (field pkt (2 * k) 2) ≠ beNat [a, b]
  no_exchange : ¬ (beNat (field pkt (2 * k) 2) = 0 ∧ beNat [a, b] = 65535)
  no_exchange' : ¬ (beNat (field pkt (2 * k) 2) = 65535 ∧ beNat [a, b] = 0)

/-! ## Sums -/

/-- The loop over the carries leaves the representative from 1 to 65535. -/
lemma carries_spec {sum : ℕ} (hpos : 0 < sum) (hsum : sum < 2 ^ 32) :
    0 < carry (carry sum) ∧ carry (carry sum) ≤ 65535 ∧
      carry (carry sum) % 65535 = sum % 65535 := by
  have hone : carry sum ≤ 65535 + 65535 := by
    rw [carry]
    omega
  have htwo : carry (carry sum) ≤ 65535 := by
    rw [carry]
    omega
  have hmod : carry (carry sum) % 65535 = sum % 65535 := by rw [carry_mod, carry_mod]
  exact ⟨carry_pos (carry_pos hpos), htwo, hmod⟩

lemma verifies_iff {sum : ℕ} (hpos : 0 < sum) (hsum : sum < 2 ^ 32) :
    Verifies sum ↔ sum % 65535 = 0 := by
  obtain ⟨hlow, hhigh, hmod⟩ := carries_spec hpos hsum
  rw [Verifies]
  omega

lemma beNat_two (a b : UInt8) : beNat [a, b] = a.toNat * 256 + b.toNat := by
  show b.toNat + 256 * (a.toNat + 256 * 0) = _
  omega

lemma beNat_two_lt (a b : UInt8) : beNat [a, b] < 65536 := by
  have ha := a.toNat_lt
  have hb := b.toNat_lt
  rw [beNat_two]
  omega

lemma field_two {p : ℕ} (h : p + 1 < pkt.length) : field pkt p 2 = [pkt[p], pkt[p + 1]] := by
  unfold field
  rw [List.drop_eq_getElem_cons (by omega), List.drop_eq_getElem_cons h]
  rfl

/-- A header of version 4 has a sum that is not zero and fits 32 bits. -/
lemma Consistent.sum (h : Consistent pkt) :
    0 < wordSum (header pkt) ∧ wordSum (header pkt) < 2 ^ 32 := by
  have hlong := h.received
  have hge := h.header_ge
  have hversion := h.version
  have hshort : headerLen pkt ≤ 60 := by
    unfold headerLen
    omega
  have hbound := wordSum_lt (header pkt)
  have hlen : (header pkt).length ≤ headerLen pkt := List.length_take_le _ _
  refine ⟨?_, by omega⟩
  obtain ⟨x, y, rest, hpkt⟩ : ∃ x y rest, pkt = x :: y :: rest :=
    ⟨_, _, _, (List.drop_zero (l := pkt)).symm.trans ((List.drop_eq_getElem_cons (by omega)).trans
      (congrArg _ (List.drop_eq_getElem_cons (show 1 < pkt.length by omega))))⟩
  have hfirst : beNat (field pkt 0 1) = x.toNat := by
    rw [hpkt]
    show x.toNat + 256 * 0 = x.toNat
    omega
  obtain ⟨m, hm⟩ : ∃ m, headerLen pkt = m + 2 := ⟨headerLen pkt - 2, by omega⟩
  have hhead : header pkt = x :: y :: rest.take m := by
    unfold header
    rw [hm, hpkt]
    rfl
  rw [hhead, wordSum]
  rw [hfirst] at hversion
  omega

/-- What the test of `ipv4_input` says. -/
lemma Consistent.test_iff (h : Consistent pkt) :
    ¬ ((ip4Checksum (header pkt)).toNat ≠ 0 ∧ csumField pkt ≠ (ip4Checksum (header pkt)).toNat) ↔
      Verifies (wordSum (header pkt)) ∨ Weak pkt := by
  obtain ⟨hpos, hsum⟩ := h.sum
  obtain ⟨hlow, hhigh, hmod⟩ := carries_spec hpos hsum
  have hcalc : (ip4Checksum (header pkt)).toNat = 65535 - carry (carry (wordSum (header pkt))) := by
    rw [ip4Checksum, complement, UInt16.toNat_ofNat']
    omega
  rw [hcalc, Verifies, Weak]
  omega

lemma passes_iff : Passes nif pkt ↔
    Consistent pkt ∧ ForUs nif pkt ∧ (Verifies (wordSum (header pkt)) ∨ Weak pkt) := by
  unfold Passes ipv4Input
  by_cases hlen : pkt.length < 20
  · rw [if_pos hlen]
    exact iff_of_false (fun hne => hne rfl) fun hall => Nat.not_le.mpr hlen hall.1.received
  · rw [if_neg hlen]
    by_cases hversion : beNat (field pkt 0 1) / 16 ≠ 4
    · rw [if_pos hversion]
      exact iff_of_false (fun hne => hne rfl) fun hall => hversion hall.1.version
    · rw [if_neg hversion]
      by_cases hlens : beNat (field pkt 0 1) % 16 * 4 < 20 ∨
          beNat (field pkt 0 1) % 16 * 4 > pkt.length ∨ beNat (field pkt 2 2) > pkt.length ∨
          beNat (field pkt 2 2) < beNat (field pkt 0 1) % 16 * 4
      · rw [if_pos hlens]
        apply iff_of_false (fun hne => hne rfl)
        intro hall
        have hge : 20 ≤ beNat (field pkt 0 1) % 16 * 4 := hall.1.header_ge
        have hge' : beNat (field pkt 0 1) % 16 * 4 ≤ beNat (field pkt 2 2) := hall.1.total_ge
        have hle' : beNat (field pkt 2 2) ≤ pkt.length := hall.1.total_le
        omega
      · rw [if_neg hlens]
        have hhead : headerLen pkt = beNat (field pkt 0 1) % 16 * 4 := rfl
        have htotal : totalLen pkt = beNat (field pkt 2 2) := rfl
        have hcons : Consistent pkt :=
          ⟨by omega, not_not.mp hversion, by omega, by omega, by omega, by omega⟩
        have htest := hcons.test_iff
        by_cases hsum : (ip4Checksum (pkt.take (beNat (field pkt 0 1) % 16 * 4))).toNat ≠ 0 ∧
            beNat (field pkt 10 2) ≠
              (ip4Checksum (pkt.take (beNat (field pkt 0 1) % 16 * 4))).toNat
        · rw [if_pos hsum]
          exact iff_of_false (fun hne => hne rfl) fun hall => htest.mpr hall.2.2 hsum
        · rw [if_neg hsum]
          by_cases hdst : ip4Unpack (field pkt 16 4) ≠ nif.ipAddr ∧
              ip4Unpack (field pkt 16 4) ≠ IP4_BROADCAST ∧ ip4Unpack (field pkt 16 4) ≠ IP4_LOOPBACK
          · rw [if_pos hdst]
            apply iff_of_false (fun hne => hne rfl)
            intro hall
            cases hall.2.1 with
            | inl hown => exact hdst.1 hown
            | inr hrest => exact hrest.elim hdst.2.1 hdst.2.2
          · rw [if_neg hdst]
            apply iff_of_true (Option.some_ne_none _)
            refine ⟨hcons, ?_, htest.mp hsum⟩
            unfold ForUs
            by_contra hno
            simp only [not_or] at hno
            exact hdst hno

/-- Right and weak exclude each other. -/
lemma Weak.not_verifies (h : Weak pkt) (hc : Consistent pkt) :
    ¬ Verifies (wordSum (header pkt)) := by
  obtain ⟨hpos, hsum⟩ := hc.sum
  unfold Weak at h
  rw [verifies_iff hpos hsum]
  omega

/-! ## Corruption -/

/-- Another word in place of one of the sum. -/
lemma wordSum_set (l : List UInt8) {k : ℕ} (a b : UInt8) (h : 2 * k + 1 < l.length) :
    wordSum ((l.set (2 * k) a).set (2 * k + 1) b) + beNat [l[2 * k], l[2 * k + 1]] =
      wordSum l + beNat [a, b] := by
  fun_induction wordSum l generalizing k with
  | case1 => exact absurd h (Nat.not_lt_zero _)
  | case2 x =>
    rw [List.length_singleton] at h
    omega
  | case3 x y rest ih =>
    cases k with
    | zero =>
      show a.toNat * 256 + b.toNat + wordSum rest + beNat [x, y] = _
      rw [beNat_two, beNat_two]
      omega
    | succ k =>
      have hrest : 2 * k + 1 < rest.length := by
        rw [List.length_cons, List.length_cons] at h
        omega
      have hstep := ih hrest
      show x.toNat * 256 + y.toNat + wordSum ((rest.set (2 * k) a).set (2 * k + 1) b) +
        beNat [rest[2 * k], rest[2 * k + 1]] = _
      omega

/-- With the header length as it was, the sum of the header changes by the word. -/
lemma header_corrupt {k : ℕ} {a b : UInt8} (hc : Consistent pkt) (hk : 2 * k + 1 < headerLen pkt)
    (hsame : headerLen (corrupt pkt k a b) = headerLen pkt) :
    wordSum (header (corrupt pkt k a b)) + beNat (field pkt (2 * k) 2) =
      wordSum (header pkt) + beNat [a, b] := by
  have hle := hc.header_le
  have hset : header (corrupt pkt k a b) = ((header pkt).set (2 * k) a).set (2 * k + 1) b := by
    unfold header
    rw [hsame, corrupt, List.take_set, List.take_set]
  have hlen : (header pkt).length = headerLen pkt := List.length_take_of_le hle
  have hsum := wordSum_set (header pkt) (k := k) a b (by omega)
  rw [hset, field_two (by omega)]
  have hone : (header pkt)[2 * k] = pkt[2 * k] := List.getElem_take
  have htwo : (header pkt)[2 * k + 1] = pkt[2 * k + 1] := List.getElem_take
  rw [hone, htwo] at hsum
  exact hsum

/-- A change of one word of a right header is seen in the sum. -/
lemma WordChange.seen {k : ℕ} {a b : UInt8} (hw : WordChange pkt k a b) (hc : Consistent pkt)
    (hc' : Consistent (corrupt pkt k a b)) (hv : Verifies (wordSum (header pkt)))
    (hsame : headerLen (corrupt pkt k a b) = headerLen pkt) :
    ¬ Verifies (wordSum (header (corrupt pkt k a b))) := by
  obtain ⟨hpos, hsum⟩ := hc.sum
  obtain ⟨hpos', hsum'⟩ := hc'.sum
  have hchange := header_corrupt hc hw.inside hsame
  have hold : beNat (field pkt (2 * k) 2) < 65536 := by
    have hin := hw.inside
    have hle := hc.header_le
    rw [field_two (by omega)]
    exact beNat_two_lt _ _
  have hnew := beNat_two_lt a b
  obtain ⟨-, hne, hzero, hones⟩ := hw
  rw [verifies_iff hpos hsum] at hv
  rw [verifies_iff hpos' hsum']
  omega

/-- What `ipv4_input` passes on has consistent lengths and a right sum but for weak headers. What
`ip4_output` makes is passed on as it was sent. A packet that was passed on and is changed in one
word of its header is refused, but for a weak header before or after the change, and a header
length that becomes one for which the sum is right. -/
theorem ipv4_acceptance (nif : Netif) :
    (∀ pkt, Sound nif pkt ↔ ¬ (Consistent pkt ∧ ForUs nif pkt ∧ Weak pkt)) ∧
    (∀ src proto buf, buf.length ≤ ETH_MTU - 20 → ∃ pkt,
      ip4Output src nif.ipAddr proto buf = some pkt ∧
        ipv4Input nif pkt = some ⟨proto, src, nif.ipAddr, buf⟩) ∧
    ∀ pkt k a b, Passes nif pkt → WordChange pkt k a b →
      (ipv4Input nif (corrupt pkt k a b) = none ↔
        ¬ (Consistent (corrupt pkt k a b) ∧ ForUs nif (corrupt pkt k a b) ∧
          (Weak (corrupt pkt k a b) ∨ Verifies (wordSum (header (corrupt pkt k a b))) ∧
            (Weak pkt ∨ headerLen (corrupt pkt k a b) ≠ headerLen pkt)))) := by
  refine ⟨fun pkt => ?_, fun src proto buf hbuf => ?_, fun pkt k a b hpass hw => ?_⟩
  · unfold Sound
    rw [passes_iff]
    constructor
    · intro hsound hweak
      exact hweak.2.2.not_verifies hweak.1 (hsound ⟨hweak.1, hweak.2.1, .inr hweak.2.2⟩).2
    · intro hno hpass
      refine ⟨hpass.1, hpass.2.2.resolve_right fun hweak => ?_⟩
      exact hno ⟨hpass.1, hpass.2.1, hweak⟩
  · have hout : ∃ pkt, ip4Output src nif.ipAddr proto buf = some pkt := by
      unfold ip4Output
      rw [if_neg (Nat.not_lt.mpr hbuf)]
      exact ⟨_, rfl⟩
    obtain ⟨pkt, hpkt⟩ := hout
    exact ⟨pkt, hpkt, (ip4Output_wire hpkt).2.received⟩
  · have hnone : ipv4Input nif (corrupt pkt k a b) = none ↔ ¬ Passes nif (corrupt pkt k a b) :=
      not_not.symm
    obtain ⟨hc, -, hright⟩ := passes_iff.mp hpass
    rw [hnone, passes_iff, not_iff_not]
    apply and_congr_right
    intro hc'
    apply and_congr_right
    intro _
    constructor
    · intro h
      cases h with
      | inr hweak => exact .inl hweak
      | inl hv' =>
        refine .inr ⟨hv', ?_⟩
        by_contra hno
        obtain ⟨hweak, hlen⟩ := not_or.mp hno
        -- a right header of the same length would have been caught
        exact hw.seen hc hc' (hright.resolve_right hweak) (not_not.mp hlen) hv'
    · intro h
      cases h with
      | inl hweak => exact .inr hweak
      | inr hrest => exact .inl hrest.1

/-- A broadcast of 20 bytes with a checksum that is wrong: the sum over it is not all ones. -/
def weakHeader : List UInt8 :=
  [0x45, 0, 0, 20, 0x40, 0, 0, 0, 64, 17, 0x1d, 0x6d, 0, 0, 0, 0, 255, 255, 255, 255]

theorem weak_header_passes : ¬ ∀ nif pkt, Sound nif pkt := by
  intro hall
  have hpass : Passes ⟨1⟩ weakHeader := by
    unfold Passes
    decide
  have hright := (hall ⟨1⟩ weakHeader hpass).2
  exact absurd hright (by unfold Verifies; decide)

end MobilePhoneOs.Net
