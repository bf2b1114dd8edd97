import Mandelbot.Library.Loop
import Mandelbot.Sdk.Address

/-!
# The jail allow-list

The construction of the allow-list (app/export.go, lines 55-70). Entries are validated by decoding
them, but the map is keyed by their text, and the walk looks up the lower-case spelling.
-/

namespace Mandelbot

def applyAllowedAddrs (jailAllowedAddrs : List String) : Bool := 0 < jailAllowedAddrs.length

/-- One entry of the loop; an entry that does not decode ends the program. -/
def allowAddr (c : AddressCodec) (allowed : String → Bool) (addr : String) :
    Except Abort (String → Bool) :=
  match c.valAddressFromBech32 addr with
  | .error err => .error (.fatal err)
  | .ok _ => .ok (Function.update allowed addr true)

/-- A text that was never written reads as `false`. -/
def allowedAddrsMap (c : AddressCodec) (jailAllowedAddrs : List String) :
    Except Abort (String → Bool) :=
  jailAllowedAddrs.foldlM (allowAddr c) fun _ => false

variable {c : AddressCodec} {addrs : List String} {allowed allowed' : String → Bool}

theorem allowAddr_eq_ok {addr : String} :
    allowAddr c allowed addr = .ok allowed' ↔
      (∃ a, c.valAddressFromBech32 addr = .ok a) ∧ allowed' = Function.update allowed addr true := by
  rw [allowAddr]
  cases h : c.valAddressFromBech32 addr with
  | error err => simp
  | ok a => simp [eq_comm]

private theorem foldlM_allowAddr_eq_ok :
    addrs.foldlM (allowAddr c) allowed = .ok allowed' ↔
      (∀ e ∈ addrs, ∃ a, c.valAddressFromBech32 e = .ok a) ∧
        ∀ t, allowed' t = (allowed t || decide (t ∈ addrs)) := by
  induction addrs generalizing allowed with
  | nil =>
      rw [List.foldlM_nil]
      simp [pure, Except.pure, funext_iff, eq_comm]
  | cons addr addrs ih =>
      rw [foldlM_cons_eq_ok]
      simp only [allowAddr_eq_ok]
      have hupdate : ∀ t, Function.update allowed addr true t =
          (allowed t || decide (t = addr)) := by
        intro t
        by_cases ht : t = addr
        · subst t
          simp
        · simp [ht]
      constructor
      · intro h
        rcases h with ⟨next, ⟨haddr, hnext⟩, hrest⟩
        obtain ⟨hall, hmap⟩ := ih.mp hrest
        refine ⟨List.forall_mem_cons.mpr ⟨haddr, hall⟩, ?_⟩
        intro t
        rw [hmap t, hnext, hupdate t]
        simp [Bool.or_assoc]
      · intro h
        rcases h with ⟨hall, hmap⟩
        obtain ⟨haddr, hall⟩ := List.forall_mem_cons.mp hall
        refine ⟨_, ⟨haddr, rfl⟩, ih.mpr ⟨hall, ?_⟩⟩
        intro t
        rw [hmap t, hupdate t]
        simp [Bool.or_assoc]

/-- The construction succeeds when every entry decodes; the map then tests membership of a text. -/
theorem allowedAddrsMap_eq_ok :
    allowedAddrsMap c addrs = .ok allowed ↔
      (∀ e ∈ addrs, ∃ a, c.valAddressFromBech32 e = .ok a) ∧
        allowed = fun t => decide (t ∈ addrs) := by
  rw [allowedAddrsMap, foldlM_allowAddr_eq_ok, funext_iff]
  simp

/-- Some entry of the list decodes to the address. -/
def Listed (c : AddressCodec) (addrs : List String) (a : ValAddress) : Prop :=
  ∃ e ∈ addrs, c.valAddressFromBech32 e = .ok a

theorem allowed_iff_mem (h : allowedAddrsMap c addrs = .ok allowed) (t : String) :
    allowed t = true ↔ t ∈ addrs := by
  rw [(allowedAddrsMap_eq_ok.mp h).2]
  simp

/-- A spared address is listed. -/
theorem listed_of_allowed (hc : c.Documented) (h : allowedAddrsMap c addrs = .ok allowed)
    (a : OperatorAddress) (ha : allowed (c.string a.bytes) = true) : Listed c addrs a.bytes :=
  ⟨c.string a.bytes, (allowed_iff_mem h _).mp ha, hc.decode_string a⟩

/-- The map tests for addresses exactly when the list contains the lower-case spelling of each of
its entries. -/
theorem allowed_iff_listed (c : AddressCodec) (hc : c.Documented) (addrs : List String)
    (allowed : String → Bool) (h : allowedAddrsMap c addrs = .ok allowed) :
    ((∀ a : OperatorAddress, allowed (c.string a.bytes) = true ↔ Listed c addrs a.bytes) ↔
        ∀ e ∈ addrs, lowerCase e ∈ addrs) ∧
      ∀ addrs' allowed', allowedAddrsMap c addrs' = .ok allowed' →
        (∀ e ∈ addrs, lowerCase e ∈ addrs) → (∀ e ∈ addrs', lowerCase e ∈ addrs') →
        (∀ a : OperatorAddress, Listed c addrs a.bytes ↔ Listed c addrs' a.bytes) →
        ∀ a : OperatorAddress, allowed (c.string a.bytes) = allowed' (c.string a.bytes) := by
  have hspare : ∀ addrs allowed, allowedAddrsMap c addrs = .ok allowed →
      (∀ e ∈ addrs, lowerCase e ∈ addrs) →
      ∀ a : OperatorAddress, allowed (c.string a.bytes) = true ↔ Listed c addrs a.bytes := by
    intro addrs allowed h hlower a
    constructor
    · exact listed_of_allowed hc h a
    · intro hlisted
      rcases hlisted with ⟨e, he, hdecode⟩
      rw [allowed_iff_mem h, hc.string_of_decode e a.bytes hdecode]
      exact hlower e he
  refine ⟨⟨?_, hspare addrs allowed h⟩, ?_⟩
  · intro htest e he
    obtain ⟨a, hdecode⟩ := (allowedAddrsMap_eq_ok.mp h).1 e he
    have hlen := hc.length e a hdecode
    have hallowed := (htest ⟨a, hlen.1, hlen.2⟩).mpr ⟨e, he, hdecode⟩
    rw [← hc.string_of_decode e a hdecode]
    exact (allowed_iff_mem h _).mp hallowed
  · intro addrs' allowed' h' hlower hlower' hsame a
    rw [Bool.eq_iff_iff, hspare addrs allowed h hlower a, hspare addrs' allowed' h' hlower' a]
    exact hsame a

section Samples

theorem allowedAddrsMap_singleton {e : String} {a : ValAddress}
    (h : bech32Codec.valAddressFromBech32 e = .ok a) :
    allowedAddrsMap bech32Codec [e] = .ok fun t => decide (t ∈ [e]) := by
  refine allowedAddrsMap_eq_ok.mpr ⟨?_, rfl⟩
  intro e' he
  rw [List.mem_singleton.mp he]
  exact ⟨a, h⟩

theorem allowed_iff_listed_sample :
    ∃ allowed, allowedAddrsMap bech32Codec [bech32Codec.string [1]] = .ok allowed ∧
      ∀ a : OperatorAddress, allowed (bech32Codec.string a.bytes) = true ↔
        Listed bech32Codec [bech32Codec.string [1]] a.bytes := by
  have hmap := allowedAddrsMap_singleton (bech32Codec_documented.decode_string sampleOperator)
  have hiff := allowed_iff_listed bech32Codec bech32Codec_documented _ _ hmap
  refine ⟨_, hmap, hiff.1.mpr ?_⟩
  intro e he
  rw [List.mem_singleton.mp he, bech32Codec_documented.lowerCase_string sampleOperator]
  exact List.mem_singleton.mpr rfl

/-- The upper-case spelling is accepted, but does not spare the address it decodes to. -/
theorem upperCase_entry_not_spared :
    bech32Codec.Documented ∧
      ∃ allowed, allowedAddrsMap bech32Codec ["MANDELBOTVALOPER1QYTVQ5FM"] = .ok allowed ∧
        ¬ (allowed (bech32Codec.string [1]) = true ↔
          Listed bech32Codec ["MANDELBOTVALOPER1QYTVQ5FM"] [1]) := by
  have hdecode : bech32Codec.valAddressFromBech32 "MANDELBOTVALOPER1QYTVQ5FM" = .ok [1] := by
    decide +kernel
  have hstring : bech32Codec.string [1] = "mandelbotvaloper1qytvq5fm" := by decide +kernel
  refine ⟨bech32Codec_documented, _, allowedAddrsMap_singleton hdecode, ?_⟩
  intro hiff
  have hlisted : Listed bech32Codec ["MANDELBOTVALOPER1QYTVQ5FM"] [1] :=
    ⟨_, List.mem_singleton.mpr rfl, hdecode⟩
  have hspared := hiff.mpr hlisted
  rw [hstring] at hspared
  exact absurd hspared (by decide)

end Samples

end Mandelbot
