import RateLimiter.BpfObject

/-! `tc_ingress`, the TC ingress program of `rateLimiter.bpf.c`, one invocation at a time and
over a sequence of invocations. The program is cut where the source cuts it: the header checks,
the first-seen initialisation, the refill and the token decision. `sourceStep` is what one
invocation does to the entry of the packet's source; `tcIngress_eq` says that the program is
that step stored back under the source's key, with a record sent to `rb` on a drop, so later
files never unfold `tcIngress`. -/

namespace RateLimiter

/-- Lines 101-113: a frame that is not IPv4, or too short for an Ethernet and an IPv4 header,
passes without inspection; otherwise the key is `l3->saddr`. -/
def parseSaddr (ctx : SkBuff) : Option (BitVec 32) :=
  if ctx.protocol ≠ (bpfHtons ethPIp).setWidth 32 then none
  else if ctx.data.length < ethhdrLen then none
  else if ctx.data.length < ethhdrLen + iphdrLen then none
  else some (loadU32 ctx.data (ethhdrLen + saddrOffset))

/-- The shortest well-formed IPv4 frame from `src`: the IPv4 ethertype, and an Ethernet and an
IPv4 header that are zero except for `saddr`. -/
def ipv4Frame (src : BitVec 32) : SkBuff :=
  ⟨(bpfHtons ethPIp).setWidth 32,
   List.replicate 26 0#8 ++
     [src.extractLsb' 0 8, src.extractLsb' 8 8, src.extractLsb' 16 8, src.extractLsb' 24 8] ++
     List.replicate 4 0#8⟩

theorem parseSaddr_ipv4Frame (src : BitVec 32) : parseSaddr (ipv4Frame src) = some src := by
  have h := src.isLt
  simp only [parseSaddr, ipv4Frame, loadU32, ethhdrLen, iphdrLen, saddrOffset]
  simp [List.getD_eq_getElem?_getD, List.getElem?_append_right, List.getElem?_append_left]
  apply BitVec.eq_of_toNat_eq
  simp [Nat.shiftRight_eq_div_pow]
  omega

/-- Lines 124-131: the entry of a source seen for the first time; this packet already spent
one token. -/
def firstSeen (cfg : Rodata) (nowNs : BitVec 64) : RateState :=
  { lastTsNs := nowNs
    tokens := if 0 < cfg.burst.toInt then cfg.burst - 1#32 else 0#32
    dropped := 0#32 }

/-- Lines 136-155: add `elapsed * rate_limit_pps / 1e9` tokens in `__u64`, cap them at `burst`,
and move `last_ts_ns` to now when anything was added. -/
def refillTokens (cfg : Rodata) (st : RateState) (nowNs : BitVec 64) : RateState :=
  let elapsed := nowNs - st.lastTsNs
  if 0 < cfg.rateLimitPps.toInt ∧ 0#64 < elapsed then
    let add := elapsed * cfg.rateLimitPps.signExtend 64 / 1000000000#64
    if 0#64 < add then
      let tokens := st.tokens.setWidth 64 + add
      let tokens := if cfg.burst.signExtend 64 < tokens then cfg.burst.signExtend 64 else tokens
      { st with tokens := tokens.setWidth 32, lastTsNs := nowNs }
    else st
  else st

/-- Lines 157-164: spend a token if there is one, otherwise count the drop; `true` lets the
packet through. -/
def consumeToken (st : RateState) : Bool × RateState :=
  if 0#32 < st.tokens then (true, { st with tokens := st.tokens - 1#32 })
  else (false, { st with dropped := st.dropped + 1#32 })

/-- `tc_ingress`: the verdict for one frame and the maps after it. `nowNs` is what
`bpf_ktime_get_ns` returns, `reserved` whether `bpf_ringbuf_reserve` found room. -/
def tcIngress (cfg : Rodata) (maps : BpfMaps) (ctx : SkBuff) (nowNs : BitVec 64)
    (reserved : Bool) : Int × BpfMaps :=
  match parseSaddr ctx with
  | none => (tcActOk, maps)
  | some srcIp =>
    match maps.rateMap.lookupElem srcIp with
    | none => (tcActOk, { maps with rateMap := maps.rateMap.updateElem srcIp (firstSeen cfg nowNs) })
    | some st =>
      let r := consumeToken (refillTokens cfg st nowNs)
      let maps := { maps with rateMap := maps.rateMap.updateElem srcIp r.2 }
      if r.1 then (tcActOk, maps)
      else (tcActShot, maps.submit reserved ⟨srcIp, nowNs, r.2.dropped⟩)

/-- One invocation of the program: the frame, the clock, and the ring buffer's answer. -/
structure Packet where
  ctx : SkBuff
  nowNs : BitVec 64
  reserved : Bool

/-- Frames from `S` at the readings `ts`, each finding room in `rb`. -/
def framesAt (S : BitVec 32) (ts : List (BitVec 64)) : List Packet :=
  ts.map fun t => ⟨ipv4Frame S, t, true⟩

/-- Invocations one after another, from `maps`: the verdicts in order and the maps after. -/
def runTc (cfg : Rodata) : BpfMaps → List Packet → List Int × BpfMaps
  | maps, [] => ([], maps)
  | maps, p :: ps =>
    let step := tcIngress cfg maps p.ctx p.nowNs p.reserved
    let rest := runTc cfg step.2 ps
    (step.1 :: rest.1, rest.2)

@[simp] theorem runTc_nil (cfg : Rodata) (maps : BpfMaps) : runTc cfg maps [] = ([], maps) := rfl

@[simp] theorem runTc_cons (cfg : Rodata) (maps : BpfMaps) (p : Packet) (ps : List Packet) :
    runTc cfg maps (p :: ps) =
      ((tcIngress cfg maps p.ctx p.nowNs p.reserved).1 ::
        (runTc cfg (tcIngress cfg maps p.ctx p.nowNs p.reserved).2 ps).1,
       (runTc cfg (tcIngress cfg maps p.ctx p.nowNs p.reserved).2 ps).2) := rfl

theorem runTc_append (cfg : Rodata) (maps : BpfMaps) (ps qs : List Packet) :
    runTc cfg maps (ps ++ qs) =
      ((runTc cfg maps ps).1 ++ (runTc cfg (runTc cfg maps ps).2 qs).1,
       (runTc cfg (runTc cfg maps ps).2 qs).2) := by
  induction ps generalizing maps with
  | nil => rfl
  | cons p ps ih => simp [ih]

theorem runTc_snoc (cfg : Rodata) (maps : BpfMaps) (ps : List Packet) (p : Packet) :
    runTc cfg maps (ps ++ [p]) =
      ((runTc cfg maps ps).1 ++
          [(tcIngress cfg (runTc cfg maps ps).2 p.ctx p.nowNs p.reserved).1],
       (tcIngress cfg (runTc cfg maps ps).2 p.ctx p.nowNs p.reserved).2) := by
  simp [runTc_append]

theorem length_runTc (cfg : Rodata) (maps : BpfMaps) (ps : List Packet) :
    (runTc cfg maps ps).1.length = ps.length := by
  induction ps generalizing maps with
  | nil => rfl
  | cons p ps ih => simp [ih]

/-- What one invocation does to the entry of its source, given room in `rate_map`: the verdict
and the entry stored after it. -/
def sourceStep (cfg : Rodata) (e : Option RateState) (nowNs : BitVec 64) : Int × RateState :=
  match e with
  | none => (tcActOk, firstSeen cfg nowNs)
  | some st =>
    let r := consumeToken (refillTokens cfg st nowNs)
    (if r.1 then tcActOk else tcActShot, r.2)

/-- `sourceStep` over the clock readings of one source's packets. -/
def sourceRun (cfg : Rodata) : Option RateState → List (BitVec 64) → List Int × Option RateState
  | e, [] => ([], e)
  | e, x :: xs =>
    let step := sourceStep cfg e x
    let rest := sourceRun cfg (some step.2) xs
    (step.1 :: rest.1, rest.2)

@[simp] theorem sourceRun_nil (cfg : Rodata) (e : Option RateState) :
    sourceRun cfg e [] = ([], e) := rfl

@[simp] theorem sourceRun_cons (cfg : Rodata) (e : Option RateState) (x : BitVec 64)
    (xs : List (BitVec 64)) :
    sourceRun cfg e (x :: xs) =
      ((sourceStep cfg e x).1 :: (sourceRun cfg (some (sourceStep cfg e x).2) xs).1,
       (sourceRun cfg (some (sourceStep cfg e x).2) xs).2) := rfl

theorem length_sourceRun (cfg : Rodata) (e : Option RateState) (xs : List (BitVec 64)) :
    (sourceRun cfg e xs).1.length = xs.length := by
  induction xs generalizing e with
  | nil => rfl
  | cons x xs ih => simp [ih]

@[simp] theorem tcIngress_of_parseSaddr_none (cfg : Rodata) (maps : BpfMaps) {ctx : SkBuff}
    (nowNs : BitVec 64) (reserved : Bool) (h : parseSaddr ctx = none) :
    tcIngress cfg maps ctx nowNs reserved = (tcActOk, maps) := by
  simp [tcIngress, h]

/-- **The program, once.** A frame from `k` gets the verdict of `sourceStep` on `k`'s entry,
whose result is stored under `k` (if there is room), and a drop sends one record to `rb` when
the reservation succeeds. -/
theorem tcIngress_eq (cfg : Rodata) (maps : BpfMaps) {ctx : SkBuff} (nowNs : BitVec 64)
    (reserved : Bool) {k : BitVec 32} (h : parseSaddr ctx = some k) :
    tcIngress cfg maps ctx nowNs reserved =
      ((sourceStep cfg (maps.rateMap.lookupElem k) nowNs).1,
       { rateMap := maps.rateMap.updateElem k (sourceStep cfg (maps.rateMap.lookupElem k) nowNs).2
         rb := maps.rb ++
           if (sourceStep cfg (maps.rateMap.lookupElem k) nowNs).1 = tcActShot ∧ reserved then
             [⟨k, nowNs, (sourceStep cfg (maps.rateMap.lookupElem k) nowNs).2.dropped⟩]
           else [] }) := by
  unfold tcIngress
  rw [h]
  cases hl : maps.rateMap.lookupElem k with
  | none => simp [hl, sourceStep, tcActOk, tcActShot]
  | some st =>
      simp only [hl, sourceStep]
      cases (consumeToken (refillTokens cfg st nowNs)).1 <;> cases reserved <;>
        simp [BpfMaps.submit, tcActOk, tcActShot]

end RateLimiter
