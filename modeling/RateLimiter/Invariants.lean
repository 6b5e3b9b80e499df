import RateLimiter.Refill
import RateLimiter.SourceView

/-! Two invariants of every run of `tc_ingress` from the maps as loaded, whatever the frames,
the clock readings and the ring buffer's answers. With `burst > 0`, every entry of `rate_map`
holds fewer than `burst` tokens: a first-seen entry starts at `burst - 1`, a refill caps at
`burst` and the packet that triggered it spends one. A source's `dropped` counter is meant to be
the number of its packets dropped so far, the "total dropped" of the comments; it is a `__u32`
that `st->dropped++` never saturates, so it holds that number modulo `2^32` and is back to 0
at the `2^32`-th drop (`dropped_wraps_after_two_pow_32_drops`), and the record a drop sends to
`rb` carries the source, the clock reading and that count. At one
instant nothing is refilled, so `burst + n` packets of a new source see exactly `burst` pass
and `n` dropped, numbered `1, …, n` (`burst_at_one_instant`). Configurations that are not
positive turn the bucket into a lifetime budget, or remove its cap. -/

namespace RateLimiter

section TokenBound

variable {cfg : Rodata}

/-- Every entry of `rate_map` holds fewer than `burst` tokens. -/
def TokensBelowBurst (cfg : Rodata) (m : RateMap) : Prop :=
  ∀ k st, m.lookupElem k = some st → st.tokens.toNat < cfg.burst.toNat

theorem sourceStep_tokens_lt (hB : 0 < cfg.burst.toInt) {e : Option RateState} (nowNs : BitVec 64)
    (he : ∀ st, e = some st → st.tokens.toNat < cfg.burst.toNat) :
    (sourceStep cfg e nowNs).2.tokens.toNat < cfg.burst.toNat := by
  have hpos := toNat_pos_of_toInt_pos hB
  cases e with
  | none =>
      simp only [sourceStep, firstSeen_tokens cfg nowNs hB]
      omega
  | some st =>
      have hk := he st rfl
      simp only [sourceStep, consumeToken_tokens, refillTokens_tokens st nowNs hB]
      split <;> omega

theorem tokensBelowBurst_tcIngress (hB : 0 < cfg.burst.toInt) {maps : BpfMaps}
    (h : TokensBelowBurst cfg maps.rateMap) (ctx : SkBuff) (nowNs : BitVec 64) (reserved : Bool) :
    TokensBelowBurst cfg (tcIngress cfg maps ctx nowNs reserved).2.rateMap := by
  intro k' st hst
  cases hk : parseSaddr ctx with
  | none =>
      rw [tcIngress_of_parseSaddr_none _ _ _ _ hk] at hst
      exact h k' st hst
  | some k =>
      rw [tcIngress_eq cfg maps nowNs reserved hk, RateMap.lookupElem_updateElem] at hst
      split at hst
      · cases hst
        exact sourceStep_tokens_lt hB nowNs (h k)
      · exact h k' st hst

theorem tokensBelowBurst_runTc (hB : 0 < cfg.burst.toInt) {maps : BpfMaps}
    (h : TokensBelowBurst cfg maps.rateMap) (ps : List Packet) :
    TokensBelowBurst cfg (runTc cfg maps ps).2.rateMap := by
  induction ps generalizing maps with
  | nil => exact h
  | cons p ps ih => exact ih (tokensBelowBurst_tcIngress hB h _ _ _)

theorem tokensBelowBurst_init (cfg : Rodata) : TokensBelowBurst cfg BpfMaps.init.rateMap := by
  intro k st h
  simp [BpfMaps.init] at h

/-- **Bucket bound.** With `burst > 0`, every entry of `rate_map` in every state a run reaches
holds at most `burst` tokens, for any rate and any clock readings. -/
theorem tokens_le_burst (cfg : Rodata) (hB : 0 < cfg.burst.toInt) (ps : List Packet)
    (k : BitVec 32) (st : RateState)
    (h : (runTc cfg BpfMaps.init ps).2.rateMap.lookupElem k = some st) :
    (st.tokens.toNat : Int) ≤ cfg.burst.toInt := by
  have := tokensBelowBurst_runTc hB (tokensBelowBurst_init cfg) ps k st h
  rw [toInt_eq_toNat_of_toInt_pos hB]
  omega

/-- At 1000 packets a second with `burst = 2`: a first packet at 0, a second at 0 that spends
the last token, and a third at 2 ms that refills two tokens, capped at 2, and spends one. -/
theorem tokens_le_burst_after_refill :
    (0 < (2#32 : BitVec 32).toInt ∧
      (runTc ⟨1000#32, 2#32⟩ BpfMaps.init
        (framesAt 0x0101a8c0#32 [0#64, 0#64, 2000000#64])).2.rateMap.lookupElem 0x0101a8c0#32 =
        some ⟨2000000#64, 1#32, 0#32⟩) ∧
    ((1#32 : BitVec 32).toNat : Int) ≤ (2#32 : BitVec 32).toInt :=
  ⟨⟨by decide, by decide⟩,
   tokens_le_burst ⟨1000#32, 2#32⟩ (by decide) (framesAt 0x0101a8c0#32 [0#64, 0#64, 2000000#64])
     0x0101a8c0#32 ⟨2000000#64, 1#32, 0#32⟩ (by decide)⟩

end TokenBound

section DropCount

variable (cfg : Rodata) (S : BitVec 32)

/-- How many packets of `S` a run from the maps as loaded dropped. -/
def sourceDrops (ps : List Packet) : Nat :=
  (sourceTrace S (runTc cfg BpfMaps.init ps).1 ps).countP fun vt => vt.1 = tcActShot

theorem sourceDrops_snoc (ps : List Packet) (p : Packet) :
    sourceDrops cfg S (ps ++ [p]) = sourceDrops cfg S ps +
      if parseSaddr p.ctx = some S ∧
          (tcIngress cfg (runTc cfg BpfMaps.init ps).2 p.ctx p.nowNs p.reserved).1 = tcActShot
      then 1 else 0 := by
  unfold sourceDrops
  rw [runTc_snoc, sourceTrace_snoc S _ p (length_runTc cfg _ ps), List.countP_append]
  by_cases h : parseSaddr p.ctx = some S <;>
    by_cases hv : (tcIngress cfg (runTc cfg BpfMaps.init ps).2 p.ctx p.nowNs p.reserved).1 = tcActShot <;>
    simp [h, hv]

/-- The stored `dropped` of `S`'s entry after a drop: the old count plus one, in `__u32`. -/
theorem sourceStep_dropped (st : RateState) (nowNs : BitVec 64) :
    (sourceStep cfg (some st) nowNs).2.dropped =
      if (sourceStep cfg (some st) nowNs).1 = tcActShot then st.dropped + 1#32 else st.dropped := by
  simp only [sourceStep, consumeToken_dropped, refillTokens_dropped, consumeToken_fst]
  by_cases h : 0 < (refillTokens cfg st nowNs).tokens.toNat <;> simp [h, tcActOk, tcActShot]

/-- `S`'s `dropped` is the number of its drops modulo `2^32`; without an entry it has none. -/
theorem dropped_runTc (ps : List Packet) :
    (∀ st, (runTc cfg BpfMaps.init ps).2.rateMap.lookupElem S = some st →
      st.dropped.toNat = sourceDrops cfg S ps % 2 ^ 32) ∧
    ((runTc cfg BpfMaps.init ps).2.rateMap.lookupElem S = none → sourceDrops cfg S ps = 0) := by
  induction ps using List.reverseRecOn with
  | nil => simp [sourceDrops, BpfMaps.init]
  | append_singleton ps p ih =>
      obtain ⟨ih₁, ih₂⟩ := ih
      set maps := (runTc cfg BpfMaps.init ps).2
      rw [sourceDrops_snoc, runTc_snoc]
      by_cases hS : parseSaddr p.ctx = some S
      · rw [fst_tcIngress_of_eq cfg maps p.ctx p.nowNs p.reserved hS]
        cases hl : maps.rateMap.lookupElem S with
        | none =>
            have h0 := ih₂ hl
            by_cases hroom : maps.rateMap.HasRoom S
            · rw [lookupElem_tcIngress_of_eq cfg maps p.ctx p.nowNs p.reserved hS hroom, hl]
              simp [sourceStep, h0, tcActOk, tcActShot]
            · have := (tcIngress_of_no_room cfg maps p.ctx p.nowNs p.reserved hS hroom).2
              simp [this, sourceStep, h0, tcActOk, tcActShot]
        | some st =>
            have hd := ih₁ st hl
            rw [lookupElem_tcIngress_of_eq cfg maps p.ctx p.nowNs p.reserved hS
              (maps.rateMap.hasRoom_of_lookupElem hl), hl]
            refine ⟨fun st' hst' => ?_, fun h => by cases h⟩
            cases hst'
            rw [sourceStep_dropped]
            have := st.dropped.isLt
            split <;> simp_all [BitVec.toNat_add]
      · rw [lookupElem_tcIngress_of_ne cfg maps p.ctx p.nowNs p.reserved hS]
        simpa [hS] using And.intro ih₁ ih₂

/-- The ring buffer after a packet of `S`: one more record exactly when the packet is dropped
and the reservation succeeds, carrying `S`, the clock reading and the drop count. -/
theorem rb_runTc_snoc (ps : List Packet) (p : Packet) (hS : parseSaddr p.ctx = some S) :
    (runTc cfg BpfMaps.init (ps ++ [p])).2.rb = (runTc cfg BpfMaps.init ps).2.rb ++
      if (tcIngress cfg (runTc cfg BpfMaps.init ps).2 p.ctx p.nowNs p.reserved).1 = tcActShot ∧
          p.reserved = true then
        [⟨S, p.nowNs, BitVec.ofNat 32 (sourceDrops cfg S (ps ++ [p]))⟩]
      else [] := by
  set maps := (runTc cfg BpfMaps.init ps).2
  rw [runTc_snoc, tcIngress_eq cfg maps p.nowNs p.reserved hS]
  simp only
  split
  · rename_i hdrop
    cases hl : maps.rateMap.lookupElem S with
    | none => simp [hl, sourceStep, tcActOk, tcActShot] at hdrop
    | some st =>
        rw [hl] at hdrop
        have hd := (dropped_runTc cfg S ps).1 st hl
        have hsnoc := sourceDrops_snoc cfg S ps p
        rw [tcIngress_eq cfg maps p.nowNs p.reserved hS, hl] at hsnoc
        simp only [hS, hdrop.1, and_self, if_true] at hsnoc
        rw [hsnoc, sourceStep_dropped, if_pos hdrop.1]
        congr 3
        apply BitVec.eq_of_toNat_eq
        simp [BitVec.toNat_add, hd]
  · rfl

/-- **Drop accounting.** After every run, the `dropped` counter of `S`'s entry is the number of
`S`'s packets dropped, modulo `2^32`; and the record written to `rb` for `S`'s `k`-th dropped
packet carries `S`, that packet's clock reading and `k` modulo `2^32`. -/
theorem dropped_counts_drops_mod (ps : List Packet) :
    (∀ st, (runTc cfg BpfMaps.init ps).2.rateMap.lookupElem S = some st →
      st.dropped.toNat = sourceDrops cfg S ps % 2 ^ 32) ∧
    ∀ p, parseSaddr p.ctx = some S →
      (runTc cfg BpfMaps.init (ps ++ [p])).2.rb = (runTc cfg BpfMaps.init ps).2.rb ++
        if (tcIngress cfg (runTc cfg BpfMaps.init ps).2 p.ctx p.nowNs p.reserved).1 = tcActShot ∧
            p.reserved = true then
          [⟨S, p.nowNs, BitVec.ofNat 32 (sourceDrops cfg S (ps ++ [p]))⟩]
        else [] :=
  ⟨(dropped_runTc cfg S ps).1, fun p hS => rb_runTc_snoc cfg S ps p hS⟩

end DropCount

section OneInstant

variable (cfg : Rodata) {S : BitVec 32} {ctx : SkBuff}

/-- No time passes since the last refill: no refill. -/
@[simp] theorem refillTokens_self (st : RateState) : refillTokens cfg st st.lastTsNs = st := by
  simp [refillTokens]

/-- A packet of `S` at the instant of its entry's last refill, with a token left, spends it. -/
theorem tcIngress_same_instant_pass (maps : BpfMaps) (hS : parseSaddr ctx = some S) {st : RateState}
    (hl : maps.rateMap.lookupElem S = some st) (hk : 0 < st.tokens.toNat) :
    (tcIngress cfg maps ctx st.lastTsNs true).1 = tcActOk ∧
      (tcIngress cfg maps ctx st.lastTsNs true).2.rateMap.lookupElem S =
        some { st with tokens := st.tokens - 1#32 } ∧
      (tcIngress cfg maps ctx st.lastTsNs true).2.rb = maps.rb := by
  rw [tcIngress_eq cfg maps _ true hS, hl]
  have hpos : 0#32 < st.tokens := by simpa [BitVec.lt_def] using hk
  simp [sourceStep, consumeToken, hpos, maps.rateMap.hasRoom_of_lookupElem hl, tcActOk, tcActShot]

/-- A packet of `S` at the instant of its entry's last refill, with no token left, is dropped,
counted and reported. -/
theorem tcIngress_same_instant_drop (maps : BpfMaps) (hS : parseSaddr ctx = some S) {st : RateState}
    (hl : maps.rateMap.lookupElem S = some st) (hk : st.tokens = 0#32) :
    (tcIngress cfg maps ctx st.lastTsNs true).1 = tcActShot ∧
      (tcIngress cfg maps ctx st.lastTsNs true).2.rateMap.lookupElem S =
        some { st with dropped := st.dropped + 1#32 } ∧
      (tcIngress cfg maps ctx st.lastTsNs true).2.rb =
        maps.rb ++ [⟨S, st.lastTsNs, st.dropped + 1#32⟩] := by
  rw [tcIngress_eq cfg maps _ true hS, hl]
  simp [sourceStep, consumeToken, hk, maps.rateMap.hasRoom_of_lookupElem hl, tcActOk, tcActShot]

/-- `m` packets of `S` at the instant of its entry's last refill, with at least `m` tokens left,
all pass. -/
theorem runTc_same_instant_pass (m : Nat) (hS : parseSaddr ctx = some S) :
    ∀ (maps : BpfMaps) (st : RateState), maps.rateMap.lookupElem S = some st →
      m ≤ st.tokens.toNat →
      (runTc cfg maps (List.replicate m ⟨ctx, st.lastTsNs, true⟩)).1 = List.replicate m tcActOk ∧
        (runTc cfg maps (List.replicate m ⟨ctx, st.lastTsNs, true⟩)).2.rateMap.lookupElem S =
          some { st with tokens := st.tokens - BitVec.ofNat 32 m } ∧
        (runTc cfg maps (List.replicate m ⟨ctx, st.lastTsNs, true⟩)).2.rb = maps.rb := by
  induction m with
  | zero => intro maps st hl _; simp [hl]
  | succ m ih =>
      intro maps st hl hm
      obtain ⟨hv, hl', hrb⟩ := tcIngress_same_instant_pass cfg maps hS hl (by omega)
      obtain ⟨ihv, ihl, ihrb⟩ := ih _ _ hl' (by simp only [BitVec.toNat_sub, BitVec.toNat_ofNat]; omega)
      refine ⟨by simp [List.replicate_succ, hv, ihv], ?_, by simp [List.replicate_succ, ihrb, hrb]⟩
      simp only [List.replicate_succ, runTc_cons, ihl, Option.some.injEq, RateState.mk.injEq,
        true_and, and_true]
      apply BitVec.eq_of_toNat_eq
      simp only [BitVec.toNat_sub, BitVec.toNat_ofNat]
      omega

/-- `n` packets of `S` at the instant of its entry's last refill, with no token left, are all
dropped; the records they send carry the counts that follow the entry's. -/
theorem runTc_same_instant_drop (n : Nat) (hS : parseSaddr ctx = some S) :
    ∀ (maps : BpfMaps) (st : RateState), maps.rateMap.lookupElem S = some st → st.tokens = 0#32 →
      (runTc cfg maps (List.replicate n ⟨ctx, st.lastTsNs, true⟩)).1 = List.replicate n tcActShot ∧
        (runTc cfg maps (List.replicate n ⟨ctx, st.lastTsNs, true⟩)).2.rateMap.lookupElem S =
          some { st with dropped := st.dropped + BitVec.ofNat 32 n } ∧
        (runTc cfg maps (List.replicate n ⟨ctx, st.lastTsNs, true⟩)).2.rb =
          maps.rb ++ (List.range n).map fun k => ⟨S, st.lastTsNs, st.dropped + BitVec.ofNat 32 (k + 1)⟩ := by
  induction n with
  | zero => intro maps st hl _; simp [hl]
  | succ n ih =>
      intro maps st hl hk
      obtain ⟨hv, hl', hrb⟩ := tcIngress_same_instant_drop cfg maps hS hl hk
      obtain ⟨ihv, ihl, ihrb⟩ := ih _ _ hl' hk
      have hcount : ∀ k, st.dropped + 1#32 + BitVec.ofNat 32 k = st.dropped + BitVec.ofNat 32 (k + 1) :=
        fun k => by
          apply BitVec.eq_of_toNat_eq
          simp only [BitVec.toNat_add, BitVec.toNat_ofNat]
          omega
      simp only [List.replicate_succ, runTc_cons, hv, ihv, ihl, hrb, ihrb, hcount,
        List.range_succ_eq_map, List.map_cons, List.map_map, Function.comp_def, List.append_assoc,
        List.singleton_append, Nat.zero_add, true_and]

/-- **A burst at one instant.** `burst + n` packets of one source at one instant, with room in
the ring buffer, from the maps as loaded: the first `burst` pass, the other `n` are dropped,
and the drops send the records numbered `1, 2, …, n` (in `__u32`). -/
theorem burst_at_one_instant (hB : 0 < cfg.burst.toInt) (hS : parseSaddr ctx = some S)
    (t : BitVec 64) (n : Nat) :
    (runTc cfg BpfMaps.init (List.replicate (cfg.burst.toNat + n) ⟨ctx, t, true⟩)).1 =
        List.replicate cfg.burst.toNat tcActOk ++ List.replicate n tcActShot ∧
      (runTc cfg BpfMaps.init (List.replicate (cfg.burst.toNat + n) ⟨ctx, t, true⟩)).2.rb =
        (List.range n).map fun k => ⟨S, t, BitVec.ofNat 32 (k + 1)⟩ := by
  obtain ⟨b, hb⟩ : ∃ b, cfg.burst.toNat = b + 1 :=
    ⟨_, (Nat.succ_pred_eq_of_pos (toNat_pos_of_toInt_pos hB)).symm⟩
  -- the first packet passes and creates the entry, with `burst - 1` tokens
  have h₀ := tcIngress_eq cfg BpfMaps.init t true hS
  have hroom : RateMap.empty.HasRoom S := .inr (by decide)
  have hv₀ : (tcIngress cfg BpfMaps.init ctx t true).1 = tcActOk := by simp [h₀, sourceStep]
  have hl₀ : (tcIngress cfg BpfMaps.init ctx t true).2.rateMap.lookupElem S =
      some (firstSeen cfg t) := by simp [h₀, hroom, sourceStep]
  have hrb₀ : (tcIngress cfg BpfMaps.init ctx t true).2.rb = [] := by
    simp [h₀, sourceStep, tcActOk, tcActShot]
  -- the next `burst - 1` spend its tokens, the last `n` are dropped
  have htok : (firstSeen cfg t).tokens.toNat = b := by rw [firstSeen_tokens cfg t hB]; omega
  obtain ⟨hv₁, hl₁, hrb₁⟩ := runTc_same_instant_pass cfg b hS _ _ hl₀ htok.ge
  have hdrained : (firstSeen cfg t).tokens - BitVec.ofNat 32 b = 0#32 := by
    apply BitVec.eq_of_toNat_eq
    simp only [BitVec.toNat_sub, BitVec.toNat_ofNat, htok]
    omega
  rw [hdrained] at hl₁
  obtain ⟨hv₂, -, hrb₂⟩ := runTc_same_instant_drop cfg n hS _ _ hl₁ rfl
  simp only [firstSeen_lastTsNs] at hv₁ hrb₁ hv₂ hrb₂
  rw [hb, List.replicate_add, List.replicate_succ, List.cons_append]
  simp only [runTc_cons, runTc_append]
  rw [hv₀, hv₁, hv₂, hrb₂, hrb₁, hrb₀]
  simp [firstSeen, List.replicate_succ]

theorem burst_at_one_instant_default :
    (0 < Rodata.default.burst.toInt ∧ parseSaddr (ipv4Frame 0x0101a8c0#32) = some 0x0101a8c0#32) ∧
      (runTc Rodata.default BpfMaps.init (List.replicate (Rodata.default.burst.toNat + 3)
          ⟨ipv4Frame 0x0101a8c0#32, 5#64, true⟩)).1 =
        List.replicate Rodata.default.burst.toNat tcActOk ++ List.replicate 3 tcActShot ∧
      (runTc Rodata.default BpfMaps.init (List.replicate (Rodata.default.burst.toNat + 3)
          ⟨ipv4Frame 0x0101a8c0#32, 5#64, true⟩)).2.rb =
        (List.range 3).map fun k => ⟨0x0101a8c0#32, 5#64, BitVec.ofNat 32 (k + 1)⟩ :=
  ⟨⟨by decide, parseSaddr_ipv4Frame _⟩,
   burst_at_one_instant Rodata.default (by decide) (parseSaddr_ipv4Frame _) 5#64 3⟩

end OneInstant

/-- `n + 1` packets from one source at one instant with `burst = 1`: the first passes and
leaves no token, the other `n` are dropped, and the counter holds `n` modulo `2^32`. -/
theorem runTc_one_instant (n : Nat) :
    (runTc ⟨1000#32, 1#32⟩ BpfMaps.init
        (List.replicate (n + 1) ⟨ipv4Frame 0x0101a8c0#32, 0#64, true⟩)).2.rateMap.lookupElem
        0x0101a8c0#32 = some ⟨0#64, 0#32, BitVec.ofNat 32 n⟩ ∧
    sourceDrops ⟨1000#32, 1#32⟩ 0x0101a8c0#32
        (List.replicate (n + 1) ⟨ipv4Frame 0x0101a8c0#32, 0#64, true⟩) = n := by
  have hS := parseSaddr_ipv4Frame 0x0101a8c0#32
  have hfirst : (tcIngress ⟨1000#32, 1#32⟩ BpfMaps.init (ipv4Frame 0x0101a8c0#32) 0#64
      true).2.rateMap.lookupElem 0x0101a8c0#32 = some ⟨0#64, 0#32, 0#32⟩ := by decide
  have hv : (tcIngress ⟨1000#32, 1#32⟩ BpfMaps.init (ipv4Frame 0x0101a8c0#32) 0#64 true).1 =
      tcActOk := by decide
  obtain ⟨hv', hl, -⟩ := runTc_same_instant_drop ⟨1000#32, 1#32⟩ n hS _ _ hfirst rfl
  refine ⟨by simpa [List.replicate_succ] using hl, ?_⟩
  simp only [sourceDrops, List.replicate_succ, runTc_cons, sourceTrace_cons, hS, if_true, hv, hv',
    sourceTrace_replicate _ _ ⟨ipv4Frame 0x0101a8c0#32, 0#64, true⟩ n hS]
  simp [tcActOk, tcActShot, List.countP_cons, List.zip_replicate, List.countP_replicate]

/-- The `u32` counter is back to `0` after `2^32` drops from one source. -/
theorem dropped_wraps_after_two_pow_32_drops :
    (runTc ⟨1000#32, 1#32⟩ BpfMaps.init
        (List.replicate (2 ^ 32 + 1) ⟨ipv4Frame 0x0101a8c0#32, 0#64, true⟩)).2.rateMap.lookupElem
        0x0101a8c0#32 = some ⟨0#64, 0#32, 0#32⟩ ∧
    sourceDrops ⟨1000#32, 1#32⟩ 0x0101a8c0#32
        (List.replicate (2 ^ 32 + 1) ⟨ipv4Frame 0x0101a8c0#32, 0#64, true⟩) = 2 ^ 32 := by
  obtain ⟨h₁, h₂⟩ := runTc_one_instant (2 ^ 32)
  exact ⟨h₁.trans (by decide), h₂⟩

section Degenerate

/-! Configurations the check of `parse_arg` lets through (`parseArg_truncates_counts`). A rate of
`0` or below (`-r 4294967296`), or a burst of `0` (`-b 4294967296`), leaves each source a budget
for its whole lifetime; a negative burst (`-b 4294967295`) lifts the cap altogether. -/

variable {cfg : Rodata}

/-- The packets a source gets through over its lifetime when it is never refilled: `burst`, or
its first packet alone when `burst ≤ 0`. -/
def lifetimeBudget (cfg : Rodata) : Nat := if 0 < cfg.burst.toInt then cfg.burst.toNat else 1

theorem lifetimeBudget_pos (cfg : Rodata) : 0 < lifetimeBudget cfg := by
  unfold lifetimeBudget
  split
  · exact toNat_pos_of_toInt_pos ‹_›
  · exact Nat.one_pos

theorem cons_replicate_budget {α : Type} (a b : α) (n k : Nat) (hk : 0 < k) :
    a :: (List.replicate (min n (k - 1)) a ++ List.replicate (n - (k - 1)) b) =
      List.replicate (min (n + 1) k) a ++ List.replicate (n + 1 - k) b := by
  obtain ⟨j, rfl⟩ := Nat.exists_eq_succ_of_ne_zero hk.ne'
  rw [Nat.succ_sub_one, Nat.succ_min_succ, Nat.succ_sub_succ, List.replicate_succ, List.cons_append]

/-- With no positive rate, or a burst of `0` and an entry already drained, a refill adds
nothing. -/
theorem refillTokens_tokens_of_degenerate (hcfg : cfg.rateLimitPps.toInt ≤ 0 ∨ cfg.burst = 0#32)
    {st : RateState} (hst : cfg.burst = 0#32 → st.tokens = 0#32) (nowNs : BitVec 64) :
    (refillTokens cfg st nowNs).tokens = st.tokens := by
  rw [refillTokens_eq_cap]
  rcases hcfg with hR | hB
  · rw [if_neg fun h => absurd h.1 (not_lt.2 hR)]
  · -- the cap is `(__u64)0`
    split
    · simp [hB, hst hB]
    · rfl

/-- A source's entry that is never refilled passes as many packets as it holds tokens, then
drops every one. -/
theorem sourceRun_degenerate (hcfg : cfg.rateLimitPps.toInt ≤ 0 ∨ cfg.burst = 0#32)
    (xs : List (BitVec 64)) (st : RateState) (hst : cfg.burst = 0#32 → st.tokens = 0#32) :
    (sourceRun cfg (some st) xs).1 =
      List.replicate (min xs.length st.tokens.toNat) tcActOk ++
        List.replicate (xs.length - st.tokens.toNat) tcActShot := by
  induction xs generalizing st with
  | nil => simp
  | cons x xs ih =>
      have hr := refillTokens_tokens_of_degenerate hcfg hst x
      have hk : (consumeToken (refillTokens cfg st x)).2.tokens.toNat = st.tokens.toNat - 1 := by
        rw [consumeToken_tokens, hr]
      simp only [sourceRun_cons, sourceStep]
      rw [ih _ fun hB => BitVec.eq_of_toNat_eq (by simp [hk, hst hB])]
      simp only [hk, consumeToken_fst, hr, List.length_cons]
      rcases Nat.eq_zero_or_pos st.tokens.toNat with h0 | hpos
      · simp [h0, List.replicate_succ]
      · rw [if_pos (decide_eq_true hpos)]
        exact cons_replicate_budget _ _ _ _ hpos

/-- **A degenerate configuration is a lifetime budget.** With a rate that is not positive or a
burst of `0`, in every run from the maps as loaded whose sources fit in `rate_map`, each source
gets its first `burst` packets through (its first one alone when `burst ≤ 0`) and every later
one dropped, whatever the clock readings. -/
theorem degenerate_config_lifetime_budget (cfg : Rodata)
    (hcfg : cfg.rateLimitPps.toInt ≤ 0 ∨ cfg.burst = 0#32) (ps : List Packet)
    (hfit : (sources ps).toFinset.card ≤ rateMapMaxEntries) (S : BitVec 32) :
    (sourceTrace S (runTc cfg BpfMaps.init ps).1 ps).map Prod.fst =
      List.replicate (min (sourceTimes S ps).length (lifetimeBudget cfg)) tcActOk ++
        List.replicate ((sourceTimes S ps).length - lifetimeBudget cfg) tcActShot := by
  rw [(sourceRun_runTc_init cfg S ps hfit).1]
  cases sourceTimes S ps with
  | nil => simp
  | cons x xs =>
      have hfirst : (firstSeen cfg x).tokens.toNat = lifetimeBudget cfg - 1 := by
        unfold lifetimeBudget
        split
        · exact firstSeen_tokens cfg x ‹_›
        · simp [firstSeen, *]
      have hzero : cfg.burst = 0#32 → (firstSeen cfg x).tokens = 0#32 := fun hB => by
        simp [firstSeen, hB]
      simp only [sourceRun_cons, sourceStep]
      rw [sourceRun_degenerate hcfg xs _ hzero, hfirst, List.length_cons]
      exact cons_replicate_budget _ _ _ _ (lifetimeBudget_pos cfg)

theorem degenerate_config_lifetime_budget_rate_zero :
    ((0#32 : BitVec 32).toInt ≤ 0 ∨ (2#32 : BitVec 32) = 0#32) ∧
      (sources (framesAt 0x0101a8c0#32 [0#64, 1000000000#64, 2000000000#64])).toFinset.card ≤
        rateMapMaxEntries ∧
    (sourceTrace 0x0101a8c0#32 (runTc ⟨0#32, 2#32⟩ BpfMaps.init
        (framesAt 0x0101a8c0#32 [0#64, 1000000000#64, 2000000000#64])).1
        (framesAt 0x0101a8c0#32 [0#64, 1000000000#64, 2000000000#64])).map Prod.fst =
      List.replicate (min (sourceTimes 0x0101a8c0#32
          (framesAt 0x0101a8c0#32 [0#64, 1000000000#64, 2000000000#64])).length
          (lifetimeBudget ⟨0#32, 2#32⟩)) tcActOk ++
        List.replicate ((sourceTimes 0x0101a8c0#32
          (framesAt 0x0101a8c0#32 [0#64, 1000000000#64, 2000000000#64])).length -
            lifetimeBudget ⟨0#32, 2#32⟩) tcActShot :=
  ⟨.inl (by decide), by decide,
   degenerate_config_lifetime_budget ⟨0#32, 2#32⟩ (.inl (by decide)) _ (by decide) _⟩

/-- A packet at `T` from a drained entry last refilled at `0`, with a negative burst, is refilled
with all `⌊T · R / 10^9⌋` tokens it earned, uncapped, and spends one. -/
theorem sourceStep_of_burst_neg (hR : 0 < cfg.rateLimitPps.toInt) (hB : cfg.burst.toInt < 0)
    (T : BitVec 64) (hw : T.toNat * cfg.rateLimitPps.toNat < 2 ^ 64) (m : Nat)
    (hm : T.toNat * cfg.rateLimitPps.toNat / 10 ^ 9 = m + 1) (hn : m + 1 < 2 ^ 32) :
    sourceStep cfg (some ⟨0#64, 0#32, 0#32⟩) T =
      (tcActOk, ⟨T, BitVec.ofNat 32 m, 0#32⟩) := by
  have hadd : refillAdd cfg ⟨0#64, 0#32, 0#32⟩ T = m + 1 := by
    rw [refillAdd, refillProduct_of_le _ T hR (Nat.zero_le _), BitVec.toNat_ofNat, Nat.zero_mod,
      Nat.sub_zero, Nat.mod_eq_of_lt hw, hm]
  have hcap := two_pow_63_le_toNat_signExtend hB
  have hrefill :
      refillTokens cfg ⟨0#64, 0#32, 0#32⟩ T = ⟨T, BitVec.ofNat 32 (m + 1), 0#32⟩ := by
    rw [refillTokens_eq_cap, if_pos ⟨hR, by omega⟩, hadd, BitVec.toNat_ofNat, Nat.zero_mod,
      Nat.zero_add, Nat.min_eq_left (by omega)]
  have hpos : 0#32 < BitVec.ofNat 32 (m + 1) := by
    simp only [BitVec.lt_def, BitVec.toNat_ofNat]
    omega
  simp only [sourceStep, hrefill, consumeToken, hpos, if_true, RateState.mk.injEq, true_and,
    and_true, Prod.mk.injEq]
  rw [← BitVec.ofNat_add_ofNat, BitVec.add_sub_cancel]

/-- **A negative burst lifts the cap.** With a positive rate `R` and a burst that is negative as
an `int` (what the check of `parse_arg` lets `-b` values in `[2^31, 2^32)` through as), the
refill compares the tokens with `burst` converted to `__u64`, above `2^63`, and never caps: a
source whose first packet comes at `0` and that stays idle until `T` gets its
`⌊T · R / 10^9⌋` packets at `T` all through, however many that is below `2^32`. -/
theorem negative_burst_uncapped (cfg : Rodata) (hR : 0 < cfg.rateLimitPps.toInt)
    (hB : cfg.burst.toInt < 0) (S : BitVec 32) (T : BitVec 64)
    (hw : T.toNat * cfg.rateLimitPps.toNat < 2 ^ 64)
    (hn : T.toNat * cfg.rateLimitPps.toNat / 10 ^ 9 < 2 ^ 32) :
    (runTc cfg BpfMaps.init
        (framesAt S (0#64 :: List.replicate (T.toNat * cfg.rateLimitPps.toNat / 10 ^ 9) T))).1 =
      List.replicate (T.toNat * cfg.rateLimitPps.toNat / 10 ^ 9 + 1) tcActOk := by
  have hS := parseSaddr_ipv4Frame S
  have hroom : BpfMaps.init.rateMap.HasRoom S := .inr (by decide)
  have hfirst : firstSeen cfg 0#64 = ⟨0#64, 0#32, 0#32⟩ := by simp [firstSeen, not_lt.2 hB.le]
  have hl₁ := lookupElem_tcIngress_of_eq cfg _ _ 0#64 true hS hroom
  rw [BpfMaps.init_rateMap, RateMap.lookupElem_empty] at hl₁
  simp only [sourceStep, hfirst] at hl₁
  simp only [framesAt, List.map_cons, List.map_replicate, runTc_cons,
    fst_tcIngress_of_eq cfg _ _ _ _ hS, BpfMaps.init_rateMap, RateMap.lookupElem_empty]
  rcases hk : T.toNat * cfg.rateLimitPps.toNat / 10 ^ 9 with _ | m
  · rfl
  · rw [hk] at hn
    have hstep := sourceStep_of_burst_neg hR hB T hw m hk hn
    have hl₂ := lookupElem_tcIngress_of_eq cfg
      (tcIngress cfg BpfMaps.init (ipv4Frame S) 0#64 true).2 _ T true hS
      (RateMap.hasRoom_of_lookupElem _ hl₁)
    rw [hl₁, hstep] at hl₂
    have hrest := (runTc_same_instant_pass cfg m hS _ ⟨T, BitVec.ofNat 32 m, 0#32⟩ hl₂
      (by simp only [BitVec.toNat_ofNat]; omega)).1
    simp only [List.replicate_succ, runTc_cons, fst_tcIngress_of_eq cfg _ _ _ _ hS, hl₁, hstep]
    exact congrArg _ (congrArg _ hrest)

/-- `-b 4294967295` configures a burst of `-1`: a source idle for 5 ms at 1000 packets a second
gets five packets through at one instant after its first. -/
theorem negative_burst_uncapped_five :
    (0 < (1000#32 : BitVec 32).toInt ∧ (0xFFFFFFFF#32 : BitVec 32).toInt < 0 ∧
      (5000000#64 : BitVec 64).toNat * (1000#32 : BitVec 32).toNat < 2 ^ 64 ∧
      (5000000#64 : BitVec 64).toNat * (1000#32 : BitVec 32).toNat / 10 ^ 9 < 2 ^ 32) ∧
    (runTc ⟨1000#32, 0xFFFFFFFF#32⟩ BpfMaps.init (framesAt 0x0101a8c0#32 (0#64 :: List.replicate
        ((5000000#64 : BitVec 64).toNat * (1000#32 : BitVec 32).toNat / 10 ^ 9) 5000000#64))).1 =
      List.replicate ((5000000#64 : BitVec 64).toNat * (1000#32 : BitVec 32).toNat / 10 ^ 9 + 1)
        tcActOk :=
  ⟨⟨by decide, by decide, by decide, by decide⟩,
   negative_burst_uncapped ⟨1000#32, 0xFFFFFFFF#32⟩ (by decide) (by decide) _ _ (by decide)
     (by decide)⟩

end Degenerate

end RateLimiter
