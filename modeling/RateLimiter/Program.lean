import RateLimiter.Bucket
import RateLimiter.ParseArg

/-! The loader and the BPF program together. `main` writes the `rate` and `burst` that
`argp_parse` leaves in `env` into `skel->rodata` before the object is loaded, and `tc_ingress`
reads them as its `Rodata`. When the last `-r` and the last `-b` are decimal numerals of counts
in `[1, INT_MAX]`, or are absent, the check of `parse_arg` and the conversion to `int` keep those
counts, so every source gets the token bucket of exactly that rate and burst
(`commandLine_configures_bucket`); other arguments can configure something else
(`parseArg_truncates_counts`). -/

namespace RateLimiter

/-- The decimal numeral of a count in `[1, INT_MAX]` sets exactly that count. -/
theorem countOf_decimal {n : Nat} (h1 : 1 ≤ n) (h2 : n ≤ 2 ^ 31 - 1) {v : BitVec 32} :
    CountOf (String.mk (decimal n)) v ↔ v = BitVec.ofNat 32 n := by
  rw [← @parseCount_eq_ok "", parseCount_decimal _ h1 h2]
  exact ⟨fun h => (Except.ok.inj h).symm, fun h => h ▸ rfl⟩

/-- A count set only by `key`, after a run of `argp_parse` from the default `d`, when the last
argument of `key`, or the numeral of `d` if there is none, is the numeral of `n` in
`[1, INT_MAX]`: it is `n`, positive as an `int`. -/
theorem count_of_lastArg {key : Nat} {calls : List (Nat × String)} {v : BitVec 32} {d n : Nat}
    (hv : (lastArg key calls = none ∧ v = BitVec.ofNat 32 d) ∨
      ∃ arg, lastArg key calls = some arg ∧ CountOf arg v)
    (hn : (lastArg key calls).getD (String.mk (decimal d)) = String.mk (decimal n))
    (h1 : 1 ≤ n) (h2 : n ≤ 2 ^ 31 - 1) :
    v.toNat = n ∧ 0 < v.toInt := by
  have hv : v = BitVec.ofNat 32 n := by
    rcases hv with ⟨hl, rfl⟩ | ⟨arg, hl, hc⟩
    · rw [hl, Option.getD_none] at hn
      have hd : decimalValue (decimal d) = decimalValue (decimal n) :=
        congrArg (fun s => decimalValue s.data) hn
      rw [decimalValue_decimal, decimalValue_decimal] at hd
      rw [hd]
    · rw [hl, Option.getD_some] at hn
      exact (countOf_decimal h1 h2).1 (hn ▸ hc)
  subst hv
  rw [BitVec.toInt_eq_toNat_cond, BitVec.toNat_ofNat, Nat.mod_eq_of_lt (by omega)]
  exact ⟨rfl, by split <;> omega⟩

/-- **What the command line configures.** After `argp_parse` returns, when the last `-r`, or
`1000` if there is none, is the decimal numeral of `R`, and the last `-b`, or `200`, is that of
`B`, with `R` and `B` in `[1, INT_MAX]`: in every run of the loaded program from its maps as
loaded whose sources fit in `rate_map`, a source whose readings never go back, with gaps whose
product with `R` stays `10^9` below `2^64`, gets the verdicts of the token bucket of rate `R`
and burst `B` over its readings. -/
theorem commandLine_configures_bucket (calls : List (Nat × String)) (env : Env)
    (h : argpParse calls Env.default = .ok env) (R B : Nat)
    (hR : (lastArg 'r'.toNat calls).getD (String.mk (decimal 1000)) = String.mk (decimal R))
    (hR1 : 1 ≤ R) (hR2 : R ≤ 2 ^ 31 - 1)
    (hB : (lastArg 'b'.toNat calls).getD (String.mk (decimal 200)) = String.mk (decimal B))
    (hB1 : 1 ≤ B) (hB2 : B ≤ 2 ^ 31 - 1)
    (ps : List Packet) (hfit : (sources ps).toFinset.card ≤ rateMapMaxEntries) (S : BitVec 32)
    (hgaps : (sourceTimes S ps).Chain' fun a b =>
      a.toNat ≤ b.toNat ∧ (b.toNat - a.toNat) * R + 10 ^ 9 ≤ 2 ^ 64) :
    (sourceTrace S (runTc env.rodata BpfMaps.init ps).1 ps).map Prod.fst =
      (Bucket.run R B none ((sourceTimes S ps).map BitVec.toNat)).1.map Bucket.verdict := by
  obtain ⟨rfl, hRpos⟩ := count_of_lastArg
    (argpParse_last Env.rate _ CountOf (fun _ _ _ _ h => (parseArg_fields h).1) calls _ _ h)
    hR hR1 hR2
  obtain ⟨rfl, hBpos⟩ := count_of_lastArg
    (argpParse_last Env.burst _ CountOf (fun _ _ _ _ h => (parseArg_fields h).2.1) calls _ _ h)
    hB hB1 hB2
  rw [(sourceRun_runTc_init env.rodata S ps hfit).1]
  exact (sourceRun_refines hRpos hBpos _ .none
    (Bucket.noWrap_none_of_gaps _ _ _ ((List.chain'_map BitVec.toNat).2 hgaps))).1

/-- `-r 500 -b 1`: a source sending at 0, 1 ms and 2 ms gets the verdicts of the bucket of rate
500 and burst 1, which drops the second packet, half a token after the first. -/
theorem commandLine_configures_bucket_r500_b1 :
    (argpParse [('r'.toNat, "500"), ('b'.toNat, "1")] Env.default =
        .ok ⟨500#32, 1#32, false, "ens160"⟩ ∧
      (lastArg 'r'.toNat [('r'.toNat, "500"), ('b'.toNat, "1")]).getD (String.mk (decimal 1000)) =
        String.mk (decimal 500) ∧ 1 ≤ 500 ∧ 500 ≤ 2 ^ 31 - 1 ∧
      (lastArg 'b'.toNat [('r'.toNat, "500"), ('b'.toNat, "1")]).getD (String.mk (decimal 200)) =
        String.mk (decimal 1) ∧ 1 ≤ 1 ∧ 1 ≤ 2 ^ 31 - 1 ∧
      (sources (framesAt 0x0101a8c0#32 [0#64, 1000000#64, 2000000#64])).toFinset.card ≤
        rateMapMaxEntries ∧
      (sourceTimes 0x0101a8c0#32 (framesAt 0x0101a8c0#32 [0#64, 1000000#64, 2000000#64])).Chain'
        fun a b => a.toNat ≤ b.toNat ∧ (b.toNat - a.toNat) * 500 + 10 ^ 9 ≤ 2 ^ 64) ∧
    (sourceTrace 0x0101a8c0#32 (runTc (Env.rodata ⟨500#32, 1#32, false, "ens160"⟩) BpfMaps.init
        (framesAt 0x0101a8c0#32 [0#64, 1000000#64, 2000000#64])).1
        (framesAt 0x0101a8c0#32 [0#64, 1000000#64, 2000000#64])).map Prod.fst =
      (Bucket.run 500 1 none ((sourceTimes 0x0101a8c0#32
        (framesAt 0x0101a8c0#32 [0#64, 1000000#64, 2000000#64])).map BitVec.toNat)).1.map
        Bucket.verdict :=
  have h : argpParse [('r'.toNat, "500"), ('b'.toNat, "1")] Env.default =
      .ok ⟨500#32, 1#32, false, "ens160"⟩ := by decide
  have hR : (lastArg 'r'.toNat [('r'.toNat, "500"), ('b'.toNat, "1")]).getD
      (String.mk (decimal 1000)) = String.mk (decimal 500) := by
    simp [lastArg, decimal]
    rfl
  have hB : (lastArg 'b'.toNat [('r'.toNat, "500"), ('b'.toNat, "1")]).getD
      (String.mk (decimal 200)) = String.mk (decimal 1) := by
    simp [lastArg, decimal]
    rfl
  have hgaps : (sourceTimes 0x0101a8c0#32
      (framesAt 0x0101a8c0#32 [0#64, 1000000#64, 2000000#64])).Chain' fun a b =>
        a.toNat ≤ b.toNat ∧ (b.toNat - a.toNat) * 500 + 10 ^ 9 ≤ 2 ^ 64 := by
    rw [show sourceTimes 0x0101a8c0#32 (framesAt 0x0101a8c0#32 [0#64, 1000000#64, 2000000#64]) =
      [0#64, 1000000#64, 2000000#64] by decide]
    simp only [List.chain'_cons, List.chain'_singleton, and_true]
    decide
  ⟨⟨h, hR, by decide, by decide, hB, by decide, by decide, by decide, hgaps⟩,
   commandLine_configures_bucket _ _ h 500 1 hR (by decide) (by decide) hB (by decide) (by decide)
     _ (by decide) _ hgaps⟩

end RateLimiter
