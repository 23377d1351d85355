import Ferryman.Core.ConfigProperties

/-!
# Trusted networks as ranges of addresses

The mask arithmetic of `contains` against the ranges that the entries name.
-/

set_option autoImplicit false

namespace Ferryman.Core

open IpAddr

/-! ## Ranges -/

/-- The two addresses are of one family and have the same first `len` bits. -/
def SharesBits (len : Nat) : IpAddr → IpAddr → Prop
  | .v4 net, .v4 ip => ∀ i < len, net.getMsbD i = ip.getMsbD i
  | .v6 net, .v6 ip => ∀ i < len, net.getMsbD i = ip.getMsbD i
  | _, _ => False

/-- The range that an entry stands for: `::ffff:a.b.c.d/N` is `a.b.c.d/(N-96)`. -/
def rangeOf (entry : IpAddr) (len : Nat) : IpAddr × Nat :=
  match entry with
  | .v4 bits => (.v4 bits, len)
  | .v6 bits =>
      match toIpv4Mapped bits with
      | some mapped => (.v4 mapped, len - 96)
      | none => (.v6 bits, len)

def InRange (entry : IpAddr) (len : Nat) (ip : IpAddr) : Prop :=
  SharesBits (rangeOf entry len).2 (rangeOf entry len).1 ip.toCanonical

/-- The entry reads `address/len`, or is a bare address with all of its bits. -/
def Reads (raw : Bytes) (address : IpAddr) (len : Nat) : Prop :=
  IpAddr.parse (TrustedProxies.splitSlash raw).1 = some address ∧
    match (TrustedProxies.splitSlash raw).2 with
    | none => len = addressWidth address
    | some text => TrustedProxies.parseLength (addressWidth address) text = some len

theorem SharesBits.sameWidth {len : Nat} {net ip : IpAddr} (shares : SharesBits len net ip) :
    addressWidth net = addressWidth ip := by
  cases net with
  | v4 bits =>
      cases ip with
      | v4 _ => rfl
      | v6 _ => exact shares.elim
  | v6 bits =>
      cases ip with
      | v4 _ => exact shares.elim
      | v6 _ => rfl

theorem sharesBits_zero {net ip : IpAddr} :
    SharesBits 0 net ip ↔ addressWidth net = addressWidth ip := by
  refine ⟨SharesBits.sameWidth, fun same => ?_⟩
  cases net <;> cases ip <;> simp_all [SharesBits, addressWidth]

theorem SharesBits.congr {len : Nat} {net other ip : IpAddr} (same : SharesBits len net other) :
    SharesBits len net ip ↔ SharesBits len other ip := by
  cases net <;> cases other <;> cases ip <;> simp_all [SharesBits]

/-! ## Masks -/

/-- The two masks of `contains` leave the bits from the top of the address down to the
end of the network part. -/
theorem masked_eq_zero {size : Nat} {difference : BitVec size} {width len : Nat}
    (len_le : len ≤ width) (width_le : width ≤ size) :
    difference &&& (if len = 0 then 0 else BitVec.allOnes size <<< (width - len)) &&&
        (BitVec.allOnes size >>> (size - width)) = 0 ↔
      ∀ i < len, difference.getLsbD (width - 1 - i) = false := by
  constructor
  · intro isZero i inNet
    have bit := congrArg (fun bits => BitVec.getLsbD bits (width - 1 - i)) isZero
    have kept : ¬width - 1 - i < width - len := by omega
    have inside : width - 1 - i < size := by omega
    have shifted : width - 1 - i - (width - len) < size := by omega
    have upper : size - width + (width - 1 - i) < size := by omega
    have nonzero : len ≠ 0 := by omega
    simpa [nonzero, kept, inside, shifted, upper] using bit
  · intro agree
    refine BitVec.eq_of_getLsbD_eq fun index inside => ?_
    by_cases nothing : len = 0
    · simp [nothing]
    · by_cases inNet : width - len ≤ index ∧ index < width
      · have isZero := agree (width - 1 - index) (by omega)
        rw [show width - 1 - (width - 1 - index) = index by omega] at isZero
        simp [isZero]
      · by_cases low : index < width - len
        · simp [nothing, low]
        · have beyond : ¬size - width + index < size := by omega
          simp [beyond]

theorem addressWidth_le (ip : IpAddr) : addressWidth ip ≤ 128 := by
  cases ip <;> simp [addressWidth]

theorem Network.contains_iff (net : Network) (ip : IpAddr) :
    net.contains ip = true ↔ SharesBits net.len net.address ip := by
  obtain ⟨address, len, len_le⟩ := net
  by_cases same : addressWidth address = addressWidth ip
  · rw [Network.contains, if_neg (by simpa using same)]
    simp only [beq_iff_eq]
    rw [masked_eq_zero (same ▸ len_le) (addressWidth_le ip)]
    cases address with
    | v4 bits =>
        cases ip with
        | v6 _ => simp [addressWidth] at same
        | v4 other =>
            refine forall₂_congr fun i inNet => ?_
            have inside : i < 32 := Nat.lt_of_lt_of_le inNet len_le
            have index : 31 - i < 128 := by omega
            simp only [addressBits, addressWidth, BitVec.getLsbD_xor, BitVec.getLsbD_setWidth,
              BitVec.getMsbD, inside, index, decide_true, Bool.true_and, Nat.reduceSub, bne_eq_false_iff_eq]
            exact eq_comm
    | v6 bits =>
        cases ip with
        | v4 _ => simp [addressWidth] at same
        | v6 other =>
            refine forall₂_congr fun i inNet => ?_
            have inside : i < 128 := Nat.lt_of_lt_of_le inNet len_le
            simp only [addressBits, addressWidth, BitVec.getLsbD_xor, BitVec.getMsbD, inside,
              decide_true, Bool.true_and, bne_eq_false_iff_eq]
            exact eq_comm
  · simp only [Network.contains, ne_eq, same, not_false_eq_true, if_true, Bool.false_eq_true,
      false_iff]
    exact fun shares => same shares.sameWidth

/-! ## Entries -/

/-- What an accepted entry becomes. -/
structure Becomes (address : IpAddr) (len : Nat) (net : Network) : Prop where
  range : (net.address, net.len) = rangeOf address len
  mapped : ∀ bits mapped, address = .v6 bits → toIpv4Mapped bits = some mapped → 96 ≤ len

theorem network_eq_ok {bad : String → Error} {address : IpAddr} {len : Nat}
    {len_le : len ≤ addressWidth address} {net : Network}
    (accepted : TrustedProxies.network bad address len len_le = .ok net) :
    Becomes address len net := by
  cases address with
  | v4 bits =>
      obtain rfl := Except.ok.inj accepted
      exact ⟨rfl, by simp⟩
  | v6 bits =>
      simp only [TrustedProxies.network] at accepted
      cases mapped : toIpv4Mapped bits with
      | none =>
          simp only [mapped] at accepted
          obtain rfl := Except.ok.inj accepted
          refine ⟨by simp [rangeOf, mapped], fun _ _ same isMapped => ?_⟩
          rw [← IpAddr.v6.inj same, mapped] at isMapped
          cases isMapped
      | some v4 =>
          simp only [mapped] at accepted
          split at accepted
          · next long =>
            obtain rfl := Except.ok.inj accepted
            exact ⟨by simp [rangeOf, mapped], fun _ _ _ _ => long⟩
          · cases accepted

theorem Reads.unique {raw : Bytes} {address other : IpAddr} {len len' : Nat}
    (reads : Reads raw address len) (again : Reads raw other len') :
    other = address ∧ len' = len := by
  obtain rfl := Option.some.inj (again.1.symm.trans reads.1)
  refine ⟨rfl, ?_⟩
  have length := reads.2
  have length' := again.2
  cases written : (TrustedProxies.splitSlash raw).2 with
  | none =>
      simp only [written] at length length'
      rw [length, length']
  | some text =>
      simp only [written] at length length'
      exact Option.some.inj (length'.symm.trans length)

theorem parseEntry_eq_ok {raw : Bytes} {net : Network}
    (accepted : TrustedProxies.parseEntry raw = .ok net) :
    ∃ address len, Reads raw address len ∧ Becomes address len net := by
  unfold TrustedProxies.parseEntry at accepted
  simp only at accepted
  split at accepted
  · cases accepted
  · next address parsed =>
    split at accepted
    · next bare =>
      exact ⟨address, addressWidth address, ⟨parsed, by rw [bare]⟩, network_eq_ok accepted⟩
    · next text written =>
      split at accepted
      · cases accepted
      · next len found =>
        exact ⟨address, len, ⟨parsed, by rw [written]; exact found⟩, network_eq_ok accepted⟩

theorem mapM_eq_ok {α β : Type} {f : α → Except Error β} {inputs : List α} {outputs : List β}
    (succeeded : inputs.mapM f = .ok outputs) :
    List.Forall₂ (fun input output => f input = .ok output) inputs outputs := by
  induction inputs generalizing outputs with
  | nil =>
      obtain rfl := Except.ok.inj succeeded
      exact .nil
  | cons input inputs ih =>
      simp only [List.mapM_cons, bind_eq_ok, pure, Except.pure, Except.ok.injEq] at succeeded
      obtain ⟨output, first, others, rest, rfl⟩ := succeeded
      exact .cons first (ih rest)

theorem parse_entries {cidrs : List Bytes} {proxies : TrustedProxies}
    (parsed : TrustedProxies.parse cidrs = .ok proxies) :
    List.Forall₂ (fun raw net => ∃ address len, Reads raw address len ∧ Becomes address len net)
      cidrs proxies.nets := by
  simp only [TrustedProxies.parse, bind_eq_ok, pure, Except.pure, Except.ok.injEq] at parsed
  obtain ⟨nets, succeeded, rfl⟩ := parsed
  exact (mapM_eq_ok succeeded).imp fun _ _ => parseEntry_eq_ok

/-- A parsed list contains an address exactly if the range of one of its entries does.
The bits behind the length do not matter and no bits at all mean the whole family.
No shift is too wide and no difference negative. -/
theorem trusted_ranges_exact {cidrs : List Bytes} {proxies : TrustedProxies}
    (parsed : TrustedProxies.parse cidrs = .ok proxies) :
    (∀ ip, proxies.contains ip = true ↔
      ∃ raw ∈ cidrs, ∃ address len, Reads raw address len ∧ InRange address len ip) ∧
    (∀ raw ∈ cidrs, ∀ bits mapped len, Reads raw (.v6 bits) len →
      toIpv4Mapped bits = some mapped → 96 ≤ len) ∧
    (∀ address address' len ip, SharesBits len address address' →
      (SharesBits len address ip ↔ SharesBits len address' ip)) ∧
    (∀ address ip, SharesBits 0 address ip ↔ addressWidth address = addressWidth ip) ∧
    ∀ net ∈ proxies.nets, ∀ ip, addressWidth net.address = addressWidth ip →
      net.len ≤ addressWidth ip ∧ (net.len ≠ 0 → addressWidth ip - net.len < 128) ∧
        addressWidth ip ≤ 128 ∧ 128 - addressWidth ip < 128 := by
  have entries := parse_entries parsed
  refine ⟨fun ip => ?_, ?_, fun _ _ _ _ => SharesBits.congr, fun _ _ => sharesBits_zero, ?_⟩
  · rw [TrustedProxies.contains, List.any_eq_true]
    constructor
    · intro found
      obtain ⟨net, isNet, contains⟩ := found
      obtain ⟨raw, isRaw, address, len, reads, becomes⟩ := exists_of_forall₂ entries.flip isNet
      refine ⟨raw, isRaw, address, len, reads, ?_⟩
      rw [InRange, ← becomes.range]
      exact (net.contains_iff _).mp contains
    · intro found
      obtain ⟨raw, isRaw, address, len, reads, inRange⟩ := found
      obtain ⟨net, isNet, address', len', reads', becomes⟩ := exists_of_forall₂ entries isRaw
      obtain ⟨rfl, rfl⟩ := reads.unique reads'
      refine ⟨net, isNet, (net.contains_iff _).mpr ?_⟩
      rwa [InRange, ← becomes.range] at inRange
  · intro raw isRaw bits mapped len reads isMapped
    obtain ⟨net, -, address, len', reads', becomes⟩ := exists_of_forall₂ entries isRaw
    obtain ⟨rfl, rfl⟩ := reads.unique reads'
    exact becomes.mapped bits mapped rfl isMapped
  · intro net _ ip same
    have len_le : net.len ≤ addressWidth ip := same ▸ net.len_le
    have width_le := addressWidth_le ip
    have width_pos : 0 < addressWidth ip := by cases ip <;> simp [addressWidth]
    exact ⟨len_le, by omega, width_le, by omega⟩

theorem mapped_entry_covers_v4 :
    ∃ proxies, TrustedProxies.parse [ascii "::ffff:10.0.0.1/104"] = .ok proxies ∧
      proxies.contains (.v4 0x0A090909#32) = true := by
  let proxies : TrustedProxies := ⟨[⟨.v4 0x0A000001#32, 8, by decide⟩]⟩
  have parsed : TrustedProxies.parse [ascii "::ffff:10.0.0.1/104"] = .ok proxies := by
    decide +kernel
  refine ⟨proxies, parsed, ((trusted_ranges_exact parsed).1 _).mpr ?_⟩
  refine ⟨_, List.mem_singleton_self _, .v6 0xFFFF0A000001#128, 104, ?_, ?_⟩
  · have length : TrustedProxies.parseLength 128 (ascii "104") = some 104 := by decide +kernel
    exact ⟨by decide +kernel, length⟩
  · show ∀ i < 8, _
    decide +kernel

end Ferryman.Core
