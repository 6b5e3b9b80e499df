import RateLimiter.TcIngress

/-! One source's view of a run of `tc_ingress`. Packets of other sources, and frames that are
not inspected, never touch a source's entry (`lookupElem_tcIngress_of_ne`); a packet of the
source does to its entry what `sourceStep` says, provided `rate_map` has room for the key. So
as long as the source has an entry, or every source of the run fits in `rate_map`, the verdicts
of its packets and its final entry are those of `sourceRun` on its own clock readings
(`sourceTrace_runTc`), whatever the other packets and the ring buffer's answers. -/

namespace RateLimiter

/-- The verdict and clock reading of each packet of `S` in `ps`, given the verdicts `vs`. -/
def sourceTrace (S : BitVec 32) (vs : List Int) (ps : List Packet) : List (Int × BitVec 64) :=
  (vs.zip ps).filterMap fun vp => if parseSaddr vp.2.ctx = some S then some (vp.1, vp.2.nowNs) else none

/-- The clock readings of the packets of `S` in `ps`. -/
def sourceTimes (S : BitVec 32) (ps : List Packet) : List (BitVec 64) :=
  ps.filterMap fun p => if parseSaddr p.ctx = some S then some p.nowNs else none

/-- The inspected sources of `ps`, with repetitions. -/
def sources (ps : List Packet) : List (BitVec 32) := ps.filterMap fun p => parseSaddr p.ctx

/-- Every key of `rate_map` and every source still to come fit in `rate_map` together. -/
def Fits (m : RateMap) (ps : List Packet) : Prop :=
  (m.table.keys.toFinset ∪ (sources ps).toFinset).card ≤ rateMapMaxEntries

section Lists

variable (S : BitVec 32) (v : Int) (vs : List Int) (p : Packet) (ps : List Packet)

@[simp] theorem sourceTrace_nil_right : sourceTrace S vs [] = [] := by
  simp [sourceTrace]

theorem sourceTrace_cons :
    sourceTrace S (v :: vs) (p :: ps) =
      if parseSaddr p.ctx = some S then (v, p.nowNs) :: sourceTrace S vs ps
      else sourceTrace S vs ps := by
  by_cases h : parseSaddr p.ctx = some S <;> simp [sourceTrace, h]

theorem sourceTimes_cons :
    sourceTimes S (p :: ps) =
      if parseSaddr p.ctx = some S then p.nowNs :: sourceTimes S ps else sourceTimes S ps := by
  by_cases h : parseSaddr p.ctx = some S <;> simp [sourceTimes, h]

theorem sourceTrace_append {vs₁ vs₂ : List Int} {ps₁ ps₂ : List Packet}
    (h : vs₁.length = ps₁.length) :
    sourceTrace S (vs₁ ++ vs₂) (ps₁ ++ ps₂) = sourceTrace S vs₁ ps₁ ++ sourceTrace S vs₂ ps₂ := by
  simp [sourceTrace, List.zip_append h]

theorem sourceTrace_snoc {vs : List Int} {ps : List Packet} (h : vs.length = ps.length) :
    sourceTrace S (vs ++ [v]) (ps ++ [p]) =
      sourceTrace S vs ps ++ if parseSaddr p.ctx = some S then [(v, p.nowNs)] else [] := by
  rw [sourceTrace_append S h, sourceTrace_cons]
  split <;> simp

theorem map_snd_sourceTrace {vs : List Int} {ps : List Packet} (h : vs.length = ps.length) :
    (sourceTrace S vs ps).map Prod.snd = sourceTimes S ps := by
  induction ps generalizing vs with
  | nil => simp [sourceTimes]
  | cons p ps ih =>
      cases vs with
      | nil => cases h
      | cons v vs =>
          rw [sourceTrace_cons, sourceTimes_cons]
          split <;> simp [ih (Nat.succ.inj h)]

theorem sourceTrace_replicate (n : Nat) (h : parseSaddr p.ctx = some S) :
    sourceTrace S vs (List.replicate n p) = vs.zip (List.replicate n p.nowNs) := by
  induction n generalizing vs with
  | zero => simp
  | succ n ih =>
      cases vs with
      | nil => simp [sourceTrace]
      | cons v vs => rw [List.replicate_succ, sourceTrace_cons, if_pos h, ih, List.replicate_succ,
          List.zip_cons_cons]

theorem sourceTimes_eq_nil {ps : List Packet} (h : ∀ q ∈ ps, parseSaddr q.ctx ≠ some S) :
    sourceTimes S ps = [] := by
  simp only [sourceTimes, List.filterMap_eq_nil_iff]
  intro q hq
  simp [h q hq]

theorem sourceTimes_append (ps₁ ps₂ : List Packet) :
    sourceTimes S (ps₁ ++ ps₂) = sourceTimes S ps₁ ++ sourceTimes S ps₂ := by
  simp [sourceTimes]

end Lists

section Step

variable (cfg : Rodata) (maps : BpfMaps) (ctx : SkBuff) (nowNs : BitVec 64) (reserved : Bool)
  {S : BitVec 32}

/-- A packet that is not from `S` leaves `S`'s entry as it was. -/
theorem lookupElem_tcIngress_of_ne (h : parseSaddr ctx ≠ some S) :
    (tcIngress cfg maps ctx nowNs reserved).2.rateMap.lookupElem S = maps.rateMap.lookupElem S := by
  cases hk : parseSaddr ctx with
  | none => simp [hk]
  | some k =>
      rw [tcIngress_eq cfg maps nowNs reserved hk]
      exact RateMap.lookupElem_updateElem_ne _ _ (fun hSk => h (hSk ▸ hk))

theorem fst_tcIngress_of_eq (h : parseSaddr ctx = some S) :
    (tcIngress cfg maps ctx nowNs reserved).1 = (sourceStep cfg (maps.rateMap.lookupElem S) nowNs).1 := by
  rw [tcIngress_eq cfg maps nowNs reserved h]

/-- A packet from `S` that finds room stores the entry `sourceStep` computes. -/
theorem lookupElem_tcIngress_of_eq (h : parseSaddr ctx = some S) (hroom : maps.rateMap.HasRoom S) :
    (tcIngress cfg maps ctx nowNs reserved).2.rateMap.lookupElem S =
      some (sourceStep cfg (maps.rateMap.lookupElem S) nowNs).2 := by
  rw [tcIngress_eq cfg maps nowNs reserved h]
  exact RateMap.lookupElem_updateElem_self _ _ _ hroom

/-- A packet from `S` that finds no room is let through and changes nothing for `S`. -/
theorem tcIngress_of_no_room (h : parseSaddr ctx = some S) (hroom : ¬ maps.rateMap.HasRoom S) :
    (tcIngress cfg maps ctx nowNs reserved).1 = tcActOk ∧
      (tcIngress cfg maps ctx nowNs reserved).2.rateMap.lookupElem S = none := by
  have hnone : maps.rateMap.lookupElem S = none := by
    cases hl : maps.rateMap.lookupElem S with
    | none => rfl
    | some st => exact absurd (maps.rateMap.hasRoom_of_lookupElem hl) hroom
  rw [tcIngress_eq cfg maps nowNs reserved h, RateMap.lookupElem_updateElem, hnone]
  simp [hroom, sourceStep]

theorem keys_tcIngress_subset :
    (tcIngress cfg maps ctx nowNs reserved).2.rateMap.table.keys ⊆
      (parseSaddr ctx).toList ++ maps.rateMap.table.keys := by
  cases hk : parseSaddr ctx with
  | none => simp [hk]
  | some k =>
      rw [tcIngress_eq cfg maps nowNs reserved hk]
      exact RateMap.keys_updateElem_subset _ _ _

end Step

section Capacity

variable (cfg : Rodata) (maps : BpfMaps) (p : Packet) (ps : List Packet)

theorem card_keys (m : RateMap) : m.table.keys.toFinset.card = m.size :=
  List.toFinset_card_of_nodup m.table.keys_nodup

/-- The first packet of a run that fits finds room for its source. -/
theorem hasRoom_of_fits {S : BitVec 32} (h : Fits maps.rateMap (p :: ps))
    (hS : parseSaddr p.ctx = some S) : maps.rateMap.HasRoom S := by
  by_cases hk : S ∈ maps.rateMap.table.keys
  · exact .inl hk
  · refine .inr ?_
    have hsub : insert S maps.rateMap.table.keys.toFinset ⊆
        maps.rateMap.table.keys.toFinset ∪ (sources (p :: ps)).toFinset := by
      intro x hx
      rcases Finset.mem_insert.1 hx with rfl | hx
      · simp [sources, hS]
      · exact Finset.mem_union_left _ hx
    have := (Finset.card_le_card hsub).trans h
    rw [Finset.card_insert_of_not_mem (by simpa using hk), card_keys] at this
    omega

/-- What fits before a packet still fits after it. -/
theorem fits_tcIngress (h : Fits maps.rateMap (p :: ps)) :
    Fits (tcIngress cfg maps p.ctx p.nowNs p.reserved).2.rateMap ps := by
  refine (Finset.card_le_card fun x hx => ?_).trans h
  rcases Finset.mem_union.1 hx with hx | hx
  · have := keys_tcIngress_subset cfg maps p.ctx p.nowNs p.reserved (List.mem_toFinset.1 hx)
    rcases List.mem_append.1 this with hx | hx
    · cases hk : parseSaddr p.ctx <;> simp_all [sources]
    · exact Finset.mem_union_left _ (List.mem_toFinset.2 hx)
  · exact Finset.mem_union_right _ (by simp_all [sources])

end Capacity

/-- **One source's view of a run.** If `S` has an entry, or every source of the run fits in
`rate_map`, then the verdicts and clock readings of `S`'s packets, and `S`'s entry after the
run, are those of `sourceRun` over `S`'s clock readings from `S`'s entry. -/
theorem sourceTrace_runTc (cfg : Rodata) (S : BitVec 32) (maps : BpfMaps) (ps : List Packet)
    (h : (maps.rateMap.lookupElem S).isSome ∨ Fits maps.rateMap ps) :
    sourceTrace S (runTc cfg maps ps).1 ps =
        (sourceRun cfg (maps.rateMap.lookupElem S) (sourceTimes S ps)).1.zip (sourceTimes S ps) ∧
      (runTc cfg maps ps).2.rateMap.lookupElem S =
        (sourceRun cfg (maps.rateMap.lookupElem S) (sourceTimes S ps)).2 := by
  induction ps generalizing maps with
  | nil => simp [sourceTimes]
  | cons p ps ih =>
      set maps' := (tcIngress cfg maps p.ctx p.nowNs p.reserved).2
      by_cases hS : parseSaddr p.ctx = some S
      · have hroom : maps.rateMap.HasRoom S := by
          rcases h with h | h
          · obtain ⟨st, hst⟩ := Option.isSome_iff_exists.1 h
            exact maps.rateMap.hasRoom_of_lookupElem hst
          · exact hasRoom_of_fits maps p ps h hS
        have hl : maps'.rateMap.lookupElem S = some (sourceStep cfg (maps.rateMap.lookupElem S) p.nowNs).2 :=
          lookupElem_tcIngress_of_eq cfg maps p.ctx p.nowNs p.reserved hS hroom
        have ih' := ih maps' (.inl (by simp [hl]))
        rw [hl] at ih'
        simp only [runTc_cons, sourceTrace_cons, sourceTimes_cons, if_pos hS, sourceRun_cons,
          List.zip_cons_cons, fst_tcIngress_of_eq cfg maps p.ctx p.nowNs p.reserved hS]
        exact ⟨congrArg _ ih'.1, ih'.2⟩
      · have hl : maps'.rateMap.lookupElem S = maps.rateMap.lookupElem S :=
          lookupElem_tcIngress_of_ne cfg maps p.ctx p.nowNs p.reserved hS
        have ih' := ih maps' (h.imp (fun h => hl ▸ h) (fits_tcIngress cfg maps p ps))
        rw [hl] at ih'
        simpa only [runTc_cons, sourceTrace_cons, sourceTimes_cons, if_neg hS] using ih'

/-- Before `S`'s first packet, the run shows nothing of `S` and leaves `S`'s entry alone. -/
theorem runTc_of_no_source (cfg : Rodata) (S : BitVec 32) (maps : BpfMaps) (ps : List Packet)
    (h : ∀ p ∈ ps, parseSaddr p.ctx ≠ some S) :
    sourceTrace S (runTc cfg maps ps).1 ps = [] ∧
      (runTc cfg maps ps).2.rateMap.lookupElem S = maps.rateMap.lookupElem S := by
  induction ps generalizing maps with
  | nil => simp
  | cons p ps ih =>
      have hp := h p (List.mem_cons_self _ _)
      obtain ⟨ih₁, ih₂⟩ := ih _ (fun q hq => h q (List.mem_cons_of_mem _ hq))
      simp only [runTc_cons, sourceTrace_cons, if_neg hp]
      exact ⟨ih₁, ih₂.trans (lookupElem_tcIngress_of_ne cfg maps p.ctx p.nowNs p.reserved hp)⟩

/-- **The size of `rate_map`.** After a run, `rate_map` holds every key it held and every
inspected source of the run, up to its capacity: it never evicts, and it only stops growing
when full. -/
theorem size_runTc (cfg : Rodata) (maps : BpfMaps) (ps : List Packet) :
    (runTc cfg maps ps).2.rateMap.size =
      min rateMapMaxEntries (maps.rateMap.table.keys.toFinset ∪ (sources ps).toFinset).card := by
  induction ps generalizing maps with
  | nil =>
      simp only [runTc_nil, sources, List.filterMap_nil, List.toFinset_nil, Finset.union_empty,
        card_keys]
      exact (min_eq_right (RateMap.size_le_max _)).symm
  | cons p ps ih =>
      rw [runTc_cons, ih]
      cases hk : parseSaddr p.ctx with
      | none => simp [hk, sources]
      | some k =>
          have hsrc : (sources (p :: ps)).toFinset = insert k (sources ps).toFinset := by
            simp [sources, hk]
          rw [tcIngress_eq cfg maps p.nowNs p.reserved hk, hsrc]
          by_cases hroom : maps.rateMap.HasRoom k
          · rw [RateMap.keys_toFinset_updateElem _ _ _ hroom, Finset.insert_union,
              Finset.union_insert]
          · -- `rate_map` is full: both sides are its capacity
            rw [RateMap.updateElem_of_not_hasRoom _ _ hroom]
            dsimp only
            have hfull : rateMapMaxEntries ≤ maps.rateMap.table.keys.toFinset.card := by
              rw [card_keys]
              exact not_lt.1 fun h => hroom (.inr h)
            have h₁ := Finset.card_le_card (Finset.subset_union_left :
              maps.rateMap.table.keys.toFinset ⊆ _ ∪ (sources ps).toFinset)
            have h₂ := Finset.card_le_card (Finset.subset_union_left :
              maps.rateMap.table.keys.toFinset ⊆ _ ∪ insert k (sources ps).toFinset)
            omega

theorem fits_init (ps : List Packet) (h : (sources ps).toFinset.card ≤ rateMapMaxEntries) :
    Fits BpfMaps.init.rateMap ps := by
  simpa [Fits, BpfMaps.init, RateMap.empty] using h

/-- From the maps as loaded, when every source of the run fits in `rate_map`, a source's
verdicts and final entry are those of `sourceRun` from no entry. -/
theorem sourceRun_runTc_init (cfg : Rodata) (S : BitVec 32) (ps : List Packet)
    (hfit : (sources ps).toFinset.card ≤ rateMapMaxEntries) :
    (sourceTrace S (runTc cfg BpfMaps.init ps).1 ps).map Prod.fst =
        (sourceRun cfg none (sourceTimes S ps)).1 ∧
      (runTc cfg BpfMaps.init ps).2.rateMap.lookupElem S =
        (sourceRun cfg none (sourceTimes S ps)).2 := by
  obtain ⟨hv, he⟩ := sourceTrace_runTc cfg S _ ps (.inr (fits_init ps hfit))
  simp only [BpfMaps.init_rateMap, RateMap.lookupElem_empty] at hv he
  rw [hv, List.map_fst_zip _ _ (length_sourceRun _ _ _).le]
  exact ⟨rfl, he⟩

/-- **Per-source independence.** Frames that are not inspected pass and change nothing. Two
runs from the maps as loaded, in which `S`'s packets come in the same order with the same clock
readings and the sources never outnumber the entries of `rate_map`, give `S`'s packets the
same verdicts and leave `S` with the same entry, whatever the other packets, their interleaving
with `S`'s, and the ring buffer's answers. -/
theorem source_verdicts_independent (cfg : Rodata) (S : BitVec 32) (ps₁ ps₂ : List Packet)
    (htimes : sourceTimes S ps₁ = sourceTimes S ps₂)
    (h₁ : (sources ps₁).toFinset.card ≤ rateMapMaxEntries)
    (h₂ : (sources ps₂).toFinset.card ≤ rateMapMaxEntries) :
    (∀ maps ctx nowNs reserved, parseSaddr ctx = none →
      tcIngress cfg maps ctx nowNs reserved = (tcActOk, maps)) ∧
    (sourceTrace S (runTc cfg BpfMaps.init ps₁).1 ps₁).map Prod.fst =
      (sourceTrace S (runTc cfg BpfMaps.init ps₂).1 ps₂).map Prod.fst ∧
    (runTc cfg BpfMaps.init ps₁).2.rateMap.lookupElem S =
      (runTc cfg BpfMaps.init ps₂).2.rateMap.lookupElem S := by
  obtain ⟨hv₁, he₁⟩ := sourceTrace_runTc cfg S _ ps₁ (.inr (fits_init ps₁ h₁))
  obtain ⟨hv₂, he₂⟩ := sourceTrace_runTc cfg S _ ps₂ (.inr (fits_init ps₂ h₂))
  refine ⟨fun maps ctx nowNs reserved h => tcIngress_of_parseSaddr_none cfg maps nowNs reserved h,
    ?_, by rw [he₁, he₂, htimes]⟩
  rw [hv₁, hv₂, htimes, List.map_fst_zip _ _ (length_sourceRun _ _ _).le]

theorem source_verdicts_independent_interleaved :
    (sourceTimes 0x0101a8c0#32 [⟨ipv4Frame 0x0101a8c0#32, 5#64, true⟩] =
        sourceTimes 0x0101a8c0#32
          [⟨ipv4Frame 0x0201a8c0#32, 1#64, false⟩, ⟨ipv4Frame 0x0101a8c0#32, 5#64, false⟩] ∧
      (sources [⟨ipv4Frame 0x0101a8c0#32, 5#64, true⟩]).toFinset.card ≤ rateMapMaxEntries ∧
      (sources [⟨ipv4Frame 0x0201a8c0#32, 1#64, false⟩,
        ⟨ipv4Frame 0x0101a8c0#32, 5#64, false⟩]).toFinset.card ≤ rateMapMaxEntries) ∧
    (sourceTrace 0x0101a8c0#32 (runTc Rodata.default BpfMaps.init
        [⟨ipv4Frame 0x0101a8c0#32, 5#64, true⟩]).1 [⟨ipv4Frame 0x0101a8c0#32, 5#64, true⟩]).map
          Prod.fst =
      (sourceTrace 0x0101a8c0#32 (runTc Rodata.default BpfMaps.init
        [⟨ipv4Frame 0x0201a8c0#32, 1#64, false⟩, ⟨ipv4Frame 0x0101a8c0#32, 5#64, false⟩]).1
        [⟨ipv4Frame 0x0201a8c0#32, 1#64, false⟩, ⟨ipv4Frame 0x0101a8c0#32, 5#64, false⟩]).map
          Prod.fst :=
  ⟨⟨by decide, by decide, by decide⟩,
   (source_verdicts_independent Rodata.default 0x0101a8c0#32 [⟨ipv4Frame 0x0101a8c0#32, 5#64, true⟩]
      [⟨ipv4Frame 0x0201a8c0#32, 1#64, false⟩, ⟨ipv4Frame 0x0101a8c0#32, 5#64, false⟩]
      (by decide) (by decide) (by decide)).2.1⟩
end RateLimiter
