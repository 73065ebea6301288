import TelosSystem.EvmVotes
import TelosSystem.System

/-! The transactions that the system contract sends to the EVM: the new decay of the votes, and the
status of a producer. They travel as RLP lists of nine items. -/
namespace TelosSystem
open BigEndian Ledger Rlp

/-- What `setbpevmstat` sends; `nonce` is that of the row of `eosio` in the accounts of the EVM. -/
def setbpevmstat (keccak : List UInt8 → Checksum256) (evm : EvmTables) (nonce : Option UInt64)
    (bp : Name) (s : EvmVoting) : Except String (List UInt8) := do
  check (s.evmVotingContract ≠ noContract) "EVM voting contract not set"
  let p ← require (s.producers.lookup bp) "BP not found"
  let account ← require (evm.byAddress (pad160 s.evmVotingContract)) "EVM voting contract not found"
  let status ← require (evm.byKey account (keccak (bpStatusLocation bp)))
    "BP status not found in EVM state"
  let bpStatusInEvm := status.get (Fin.last 31) != 0
  check (p.isActive ≠ bpStatusInEvm) "The status of BP is not changed"
  let nonce ← require nonce "eosio EVM address not found"
  pure (rawTransaction nonce s.evmVotingContract (bpStatusData p.isActive bp))

structure EvmCall where
  nonce : ℕ
  gasPrice : ℕ
  gasLimit : ℕ
  dest : List UInt8
  amount : ℕ
  data : List UInt8
  v : ℕ
  r : ℕ
  s : ℕ
  deriving DecidableEq

def EvmCall.ofItems : RLPValue → Option EvmCall
  | .arr [.buf nonce, .buf gasPrice, .buf gasLimit, .buf dest, .buf amount, .buf data, .buf v,
      .buf r, .buf s] =>
    some ⟨value nonce, value gasPrice, value gasLimit, dest, value amount, data, value v,
      value r, value s⟩
  | _ => none

def EvmCall.Sent (bytes : List UInt8) (call : EvmCall) : Prop :=
  ∃ fits items, decode ⟨bytes, fits⟩ = .ok items ∧ EvmCall.ofItems items = some call

lemma EvmCall.Sent.unique {bytes : List UInt8} {call call' : EvmCall} (h : EvmCall.Sent bytes call)
    (h' : EvmCall.Sent bytes call') : call = call' := by
  obtain ⟨fits, items, hd, hc⟩ := h
  obtain ⟨fits', items', hd', hc'⟩ := h'
  rw [hd] at hd'
  cases hd'
  rw [hc] at hc'
  exact Option.some_inj.mp hc'

lemma decode_encode {items : List (List UInt8)} (h : 1 < items.length)
    (fits : (encode items).length + 9 < 2 ^ 32) :
    decode ⟨encode items, fits⟩ = .ok (.arr (items.map .buf)) := by
  have hencode : (⟨encode items, fits⟩ : Buffer).bytes = write (.arr (items.map .buf)) ++ [] := by
    change encode items = _
    rw [encode, if_pos h, List.append_nil]
  exact (decode_write hencode).1

lemma encodeLength_length_le (n offset : ℕ) (h : n < 2 ^ 64) :
    (encodeLength n offset).length ≤ 9 := by
  rcases Nat.lt_or_ge n 56 with hshort | hlong
  · rw [encodeLength_short hshort, List.length_singleton]
    norm_num
  · have hle := digits_length_le h
    rw [encodeLength_long hlong, List.length_cons]
    omega

lemma writeValues_length_le {items : List (List UInt8)} (h : ∀ item ∈ items, item.length < 2 ^ 64) :
    (writeValues (items.map .buf)).length ≤ (items.map fun item => item.length + 9).sum := by
  induction items with
  | nil => simp [writeValues]
  | cons item items ih =>
    have hitem : (writeBuffer item).length ≤ item.length + 9 := by
      have hle := encodeLength_length_le item.length 0x80 (h item (List.mem_cons_self ..))
      unfold writeBuffer
      split_ifs
      · exact Nat.le_add_right _ _
      · rw [List.length_append]
        omega
    rw [List.map_cons, writeValues, write, List.length_append, List.map_cons, List.sum_cons]
    exact Nat.add_le_add hitem (ih fun i hi => h i (List.mem_cons_of_mem _ hi))

lemma encode_fits {items : List (List UInt8)} (hlen : 1 < items.length)
    (h : (items.map fun item => item.length + 9).sum < 2 ^ 31) :
    (encode items).length + 9 < 2 ^ 32 := by
  have hitems : ∀ item ∈ items, item.length < 2 ^ 64 := by
    intro item hi
    have hle := List.single_le_sum (fun _ _ => Nat.zero_le _) _
      (List.mem_map_of_mem (f := fun i => i.length + 9) hi)
    omega
  have hvalues := writeValues_length_le hitems
  have hprefix := encodeLength_length_le (writeValues (items.map .buf)).length 0xc0 (by omega)
  rw [encode, if_pos hlen, write, List.length_append]
  omega

/-- A transaction whose data fits in memory is read as it was meant. -/
lemma rawTransaction_sent (nonce : UInt64) (contract : Checksum160) {txData : List UInt8}
    (h : txData.length < 2 ^ 16) :
    EvmCall.Sent (rawTransaction nonce contract txData)
      ⟨nonce.toNat, 0, defaultGasLimit, contract.toList, 0, txData, 0, 0, 0⟩ := by
  have hnonce : nonce.toNat < 2 ^ 256 := nonce.toNat_lt.trans (by norm_num)
  have hgas : defaultGasLimit < 2 ^ 256 := by decide
  have hitems : rawTransaction nonce contract txData =
    encode [digits nonce.toNat, [], digits defaultGasLimit,
      contract.toList, [], txData, [], [], []] := by
    rw [rawTransaction, toByteString256_eq hnonce, toByteString256_eq hgas, toByteString64_eq]
    simp only [toByteString256, ne_eq, not_true_eq_false, if_false, UInt64.toNat_zero, digits_zero]
  have hsum : ([digits nonce.toNat, [], digits defaultGasLimit, contract.toList, [],
    txData, [], [], []].map
      fun item => item.length + 9).sum < 2 ^ 31 := by
    have h8 := digits_length_le nonce.toNat_lt
    have hg : (digits defaultGasLimit).length ≤ 8 := digits_length_le (by decide)
    simp only [List.map_cons, List.map_nil, List.sum_cons, List.sum_nil, List.length_nil,
      List.Vector.toList_length]
    omega
  have fits := encode_fits (by norm_num) hsum
  refine ⟨hitems ▸ fits, .arr ([digits nonce.toNat, [], digits defaultGasLimit, contract.toList,
    [], txData, [], [],
    []].map .buf), ?_, ?_⟩
  · simp only [hitems]
    exact decode_encode (by norm_num) fits
  · simp only [List.map_cons, List.map_nil, EvmCall.ofItems, value_digits, value_nil]

lemma word_length (n : UInt64) : (word n).length = 32 := by
  rw [word, List.length_append, List.length_replicate, bytes64, List.length_map, List.length_range]

lemma value_word (n : UInt64) : value (word n) = n.toNat := by
  rw [word, value_replicate, value_bytes64]

/-- What `setvotedecay` stores is what the EVM is told: the start as it is, the yearly increase in
units of a `10 ^ 16`th of a percent, without overflow. -/
theorem setvotedecay_sent {ctx : Context} {start yearly : UInt64} {nonce : Option UInt64}
    {s s' : State} {raw : List UInt8} (h : setvotedecay ctx start yearly nonce s = .ok (raw, s')) :
    ∃ n ∈ nonce, ∃ data : List UInt8,
      EvmCall.Sent raw
        ⟨n.toNat, 0, defaultGasLimit, s'.voting.config.evmVotingContract.toList, 0, data, 0, 0, 0⟩ ∧
      data.take 4 = setDecayParamsSelector ∧ data.length = 68 ∧
      value ((data.drop 4).take 32) = s'.voting.config.decayStartEpoch ∧
      value ((data.drop 36).take 32) = s'.voting.config.decayIncreaseYearly * 10 ^ 16 := by
  simp only [setvotedecay, requireAuth, bind_ok, check_ok, exists_const, require_ok, pure_ok] at h
  obtain ⟨-, -, hyearly, -, n, hn, hsent⟩ := h
  cases hsent
  have hdata : setDecayData start yearly =
      setDecayParamsSelector ++ (word start ++ word (yearly * scaleFactor)) :=
      List.append_assoc _ _ _
  have hlength : (setDecayData start yearly).length = 68 := by
    rw [hdata, List.length_append, List.length_append, word_length, word_length]
    rfl
  have hscaled : (yearly * scaleFactor).toNat = yearly.toNat * 10 ^ 16 := by
    have hle : yearly.toNat ≤ 100 := hyearly
    have hfactor : scaleFactor.toNat = 10 ^ 16 := rfl
    rw [UInt64.toNat_mul, hfactor, Nat.mod_eq_of_lt (by omega)]
  refine ⟨n, hn, setDecayData start yearly, rawTransaction_sent n _ (by omega), ?_, hlength, ?_, ?_⟩
  · rw [hdata]
    rfl
  · rw [hdata, List.drop_left' (show setDecayParamsSelector.length = 4 from rfl),
      List.take_left' (word_length start), value_word]
    rfl
  · rw [hdata, ← List.append_assoc, List.drop_left', List.take_of_length_le (word_length _).le,
      value_word, hscaled]
    · rfl
    · rw [List.length_append, word_length]
      rfl

lemma selector_length (active : Bool) :
    (if active then registerBpSelector else unregisterBpSelector).length = 4 := by
  cases active <;> rfl

lemma bpStatusData_length (active : Bool) (bp : Name) :
    (bpStatusData active bp).length < 2 ^ 16 := by
  rw [bpStatusData, List.length_append, word_length, selector_length]
  norm_num

lemma bpStatusData_injective {active active' : Bool} {bp bp' : Name}
    (h : bpStatusData active bp = bpStatusData active' bp') : active = active' ∧ bp = bp' := by
  obtain ⟨hselector, hword⟩ :=
    List.append_inj h ((selector_length active).trans (selector_length active').symm)
  have hvalue := congrArg value hword
  rw [value_word, value_word] at hvalue
  refine ⟨?_, ?_⟩
  · revert hselector
    cases active <;> cases active' <;> decide
  · cases bp
    cases bp'
    exact congrArg Name.mk (UInt64.toNat_inj.mp hvalue)

section
open EvmVoting

/-- Decay of five percent a year is told as `5 * 10 ^ 16`. -/
theorem decay_told :
    ∃ raw s', setvotedecay ⟨launchTime, [systemAccount]⟩ 1000 5 (some 7)
      (launchState.setVotingConfig
      { launchState.voting.config with evmVotingContract := beforeVotes.evmVotingContract }) =
        .ok (raw, s') ∧
    ∃ data, EvmCall.Sent raw ⟨7, 0, 100000, List.replicate 20 1, 0, data, 0, 0, 0⟩ ∧
      value ((data.drop 36).take 32) = 5 * 10 ^ 16 := by
  have hset : setvotedecay ⟨launchTime, [systemAccount]⟩ 1000 5 (some 7)
    (launchState.setVotingConfig
      { launchState.voting.config with evmVotingContract := beforeVotes.evmVotingContract }) =
      .ok (_, _) := rfl
  obtain ⟨n, hn, data, hsent, -, -, -, hvalue⟩ := setvotedecay_sent hset
  cases hn
  exact ⟨_, _, hset, data, hsent, hvalue⟩

end

/-- The status of a producer is sent when the EVM has the other one, and the bytes that are sent say
which producer, which status, which contract and which nonce. -/
theorem setbpevmstat_sent {keccak : List UInt8 → Checksum256} {evm : EvmTables} {nonce : UInt64}
    {bp : Name} {s : EvmVoting} {p : ProducerInfo} {account : UInt64} {status : Checksum256}
    (hc : s.evmVotingContract ≠ noContract) (hp : s.producers.lookup bp = some p)
    (ha : evm.byAddress (pad160 s.evmVotingContract) = some account)
    (hs : evm.byKey account (keccak (bpStatusLocation bp)) = some status) :
    (p.isActive = (status.get (Fin.last 31) != 0) → setbpevmstat keccak evm (some nonce) bp s =
      .error "The status of BP is not changed") ∧
    (p.isActive ≠ (status.get (Fin.last 31) != 0) → ∃ raw,
      setbpevmstat keccak evm (some nonce) bp s = .ok raw ∧
      EvmCall.Sent raw ⟨nonce.toNat, 0, defaultGasLimit, s.evmVotingContract.toList, 0,
        (if p.isActive then registerBpSelector else unregisterBpSelector) ++ word bp.value, 0, 0,
          0⟩ ∧
      ∀ nonce' contract' active' bp',
        raw = rawTransaction nonce' contract' (bpStatusData active' bp') →
        nonce' = nonce ∧ contract' = s.evmVotingContract ∧ active' = p.isActive ∧ bp' = bp) := by
  have hrun : setbpevmstat keccak evm (some nonce) bp s = (do
      check (p.isActive ≠ (status.get (Fin.last 31) != 0)) "The status of BP is not changed"
      pure (rawTransaction nonce s.evmVotingContract (bpStatusData p.isActive bp))) := by
    unfold setbpevmstat
    simp only [check, hc, hp, ha, hs, require, if_true, Bind.bind, Except.bind, ne_eq,
      not_false_eq_true]
  refine ⟨fun heq => ?_, fun hne =>
    ⟨rawTransaction nonce s.evmVotingContract (bpStatusData p.isActive bp), ?_,
    rawTransaction_sent nonce _ (bpStatusData_length _ _),
      fun nonce' contract' active' bp' hraw => ?_⟩⟩
  · rw [hrun, check, if_neg (not_not.mpr heq)]
    rfl
  · rw [hrun, check, if_pos hne]
    rfl
  · have hsent := rawTransaction_sent nonce s.evmVotingContract (bpStatusData_length p.isActive bp)
    rw [hraw] at hsent
    have hcall := hsent.unique
      (rawTransaction_sent nonce' contract' (bpStatusData_length active' bp'))
    simp only [EvmCall.mk.injEq] at hcall
    obtain ⟨hnonce, -, -, hdest, -, hdata, -⟩ := hcall
    obtain ⟨hactive, hbp⟩ := bpStatusData_injective hdata
    exact ⟨(UInt64.toNat_inj.mp hnonce).symm, (List.Vector.toList_injective hdest).symm,
      hactive.symm, hbp.symm⟩

section
open EvmVoting

/-- A producer that the EVM does not know as one is registered there. -/
theorem unknown_registered :
    ∃ raw, setbpevmstat zeroHash (evmWith 0) (some 7) systemAccount beforeVotes = .ok raw ∧
      EvmCall.Sent raw
        ⟨7, 0, 100000, List.replicate 20 1, 0, registerBpSelector ++ word systemAccount.value, 0, 0,
          0⟩ := by
  have hproducer : beforeVotes.producers.lookup systemAccount = some {} := AList.lookup_insert _
  have haccount : (evmWith 0).byAddress (pad160 beforeVotes.evmVotingContract) = some 0 := rfl
  have hstatus : (evmWith 0).byKey 0 (zeroHash (bpStatusLocation systemAccount)) =
      some (List.Vector.ofFn fun i : Fin 32 => (0 * 10 ^ 14 / 256 ^ (31 - i.val)).toUInt8) := rfl
  have hsent : ∃ raw, setbpevmstat zeroHash (evmWith 0) (some 7) systemAccount beforeVotes =
    .ok raw ∧ _ :=
    (setbpevmstat_sent (by decide) hproducer haccount hstatus).2 (by decide +kernel)
  obtain ⟨raw, hraw, hsent, -⟩ := hsent
  exact ⟨raw, hraw, hsent⟩

end

end TelosSystem
