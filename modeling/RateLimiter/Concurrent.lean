import RateLimiter.Refill

/-! `tc_ingress` on several CPUs at once (§4.2 of the spec). Each CPU runs one invocation at a
time to its end, but invocations on different CPUs interleave, and the entry of a source is
read and written in place through the pointer `bpf_map_lookup_elem` returned, one field at a
time. An invocation is its source, its clock reading and the ring buffer's answer, and where it
is between two accesses to shared memory (`TcPc`); each access is one atomic step (`tcStep`):
the lookup, the insertion of a first-seen entry, each load and each store of a field of the
entry, and the reservation with the submit of a record. The test `st->tokens > 0` and the
`st->tokens--` after it read `st->tokens` once, as the spec describes the race: both packets
"observe the same token count and both decrement". A run is any schedule of arrivals of frames
on idle CPUs and steps of busy ones (`machineRun`).

Run one invocation at a time, this is the sequential program (`serial_eq_runTc`). Under every
schedule no entry holds more than `burst` tokens (`tokens_le_burst_interleaved`). What the
interleaving adds: a CPU whose clock reading is overtaken by another CPU's refill sees
`now - last_ts_ns` wrap and refills the bucket to `burst` (`overtaken_reading_refills`), which
is how the state of `tcIngress_backwards_clock_refills` arises with a clock that never goes
back; and two packets that read the same count both pass and spend one token
(`same_count_both_pass`). -/

namespace RateLimiter

/-- Lines 137-143 of the refill, for the `last_ts_ns` the invocation read: the `add` it grants,
when the rate is positive, `elapsed > 0` and `add > 0`. -/
def refillGrant (cfg : Rodata) (last nowNs : BitVec 64) : Option (BitVec 64) :=
  let elapsed := nowNs - last
  if 0 < cfg.rateLimitPps.toInt ∧ 0#64 < elapsed then
    let add := elapsed * cfg.rateLimitPps.signExtend 64 / 1000000000#64
    if 0#64 < add then some add else none
  else none

/-- Lines 145-151: the count the refill stores for the `st->tokens` it read and `add`. -/
def cappedTokens (cfg : Rodata) (k : BitVec 32) (add : BitVec 64) : BitVec 32 :=
  let tokens := k.setWidth 64 + add
  (if cfg.burst.signExtend 64 < tokens then cfg.burst.signExtend 64 else tokens).setWidth 32

/-- The sequential refill is the grant and the capped count, stored with the clock reading. -/
theorem refillTokens_eq_grant (cfg : Rodata) (st : RateState) (nowNs : BitVec 64) :
    refillTokens cfg st nowNs =
      match refillGrant cfg st.lastTsNs nowNs with
      | some add => { st with tokens := cappedTokens cfg st.tokens add, lastTsNs := nowNs }
      | none => st := by
  unfold refillTokens refillGrant cappedTokens
  dsimp only
  by_cases h : 0 < cfg.rateLimitPps.toInt ∧ 0#64 < nowNs - st.lastTsNs
  · by_cases ha : 0#64 < (nowNs - st.lastTsNs) * cfg.rateLimitPps.signExtend 64 / 1000000000#64
    · rw [if_pos h, if_pos h, if_pos ha, if_pos ha]
    · rw [if_pos h, if_pos h, if_neg ha, if_neg ha]
  · rw [if_neg h, if_neg h]

/-- Where an invocation is, before its next access to shared memory: the lookup; the
`bpf_map_update_elem` of a first-seen entry; the load of `st->last_ts_ns`; the refill's load of
`st->tokens`, with the `add` it grants; its store of the capped count `t`; its store of
`last_ts_ns`; the load of `st->tokens` that decides; the store `t - 1` of `st->tokens--` for the
count `t` it read; the load and the store of `st->dropped++`; the reservation of the record,
which reads `st->dropped`. -/
inductive TcPc
  | lookup
  | insert
  | loadLast
  | loadTokens (add : BitVec 64)
  | storeTokens (t : BitVec 32)
  | storeLast
  | check
  | decrement (t : BitVec 32)
  | loadDropped
  | storeDropped (d : BitVec 32)
  | submit
  deriving DecidableEq, Repr

/-- An invocation in flight: the source key, the clock reading, whether the reservation will
find room, and where it is. -/
structure TcInv where
  srcIp : BitVec 32
  nowNs : BitVec 64
  reserved : Bool
  pc : TcPc
  deriving DecidableEq, Repr

/-- What a load through the pointer of `k`'s entry reads: the key's value (all zero if there is
none, which no invocation that found its entry meets, since no code deletes an entry). -/
def BpfMaps.entry (maps : BpfMaps) (k : BitVec 32) : RateState :=
  (maps.rateMap.lookupElem k).getD ⟨0#64, 0#32, 0#32⟩

/-- A store through the pointer of `k`'s entry: `f` writes one field of the key's value. -/
def BpfMaps.store (maps : BpfMaps) (k : BitVec 32) (f : RateState → RateState) : BpfMaps :=
  match maps.rateMap.lookupElem k with
  | some st => { maps with rateMap := maps.rateMap.updateElem k (f st) }
  | none => maps

/-- One access of an invocation: the maps after it, and where the invocation is next, or the
verdict it returns. -/
def tcStep (cfg : Rodata) (maps : BpfMaps) (inv : TcInv) : BpfMaps × (TcInv ⊕ Int) :=
  let st := maps.entry inv.srcIp
  match inv.pc with
  | .lookup =>
    (maps, .inl { inv with
      pc := if (maps.rateMap.lookupElem inv.srcIp).isSome then .loadLast else .insert })
  | .insert =>
    ({ maps with rateMap := maps.rateMap.updateElem inv.srcIp (firstSeen cfg inv.nowNs) },
     .inr tcActOk)
  | .loadLast =>
    (maps, .inl { inv with
      pc := match refillGrant cfg st.lastTsNs inv.nowNs with
        | some add => .loadTokens add
        | none => .check })
  | .loadTokens add => (maps, .inl { inv with pc := .storeTokens (cappedTokens cfg st.tokens add) })
  | .storeTokens t =>
    (maps.store inv.srcIp fun e => { e with tokens := t }, .inl { inv with pc := .storeLast })
  | .storeLast =>
    (maps.store inv.srcIp fun e => { e with lastTsNs := inv.nowNs }, .inl { inv with pc := .check })
  | .check =>
    (maps, .inl { inv with
      pc := if 0#32 < st.tokens then .decrement st.tokens else .loadDropped })
  | .decrement t => (maps.store inv.srcIp fun e => { e with tokens := t - 1#32 }, .inr tcActOk)
  | .loadDropped => (maps, .inl { inv with pc := .storeDropped (st.dropped + 1#32) })
  | .storeDropped d =>
    (maps.store inv.srcIp fun e => { e with dropped := d }, .inl { inv with pc := .submit })
  | .submit => (maps.submit inv.reserved ⟨inv.srcIp, inv.nowNs, st.dropped⟩, .inr tcActShot)

/-- The program on all CPUs: the maps, the invocation in flight on each CPU, and the verdicts
returned so far, in the order they were returned. -/
structure Machine where
  maps : BpfMaps
  cpus : Nat → Option TcInv
  out : List Int

/-- The maps `maps` with every CPU idle. -/
def Machine.start (maps : BpfMaps) : Machine := ⟨maps, fun _ => none, []⟩

/-- A frame arrives on a CPU, or a CPU makes its next access. -/
inductive CpuEv
  | arrive (cpu : Nat) (p : Packet)
  | step (cpu : Nat)

/-- `cpus` with CPU `c` set to `v`. -/
def setCpu (cpus : Nat → Option TcInv) (c : Nat) (v : Option TcInv) : Nat → Option TcInv :=
  fun c' => if c' = c then v else cpus c'

/-- One event. A frame arriving on an idle CPU is parsed and the clock read (lines 101-116, no
shared access): a frame that is not inspected passes at once, any other starts an invocation.
A frame on a busy CPU and a step of an idle one change nothing. -/
def machineStep (cfg : Rodata) (m : Machine) : CpuEv → Machine
  | .arrive c p =>
    match m.cpus c with
    | some _ => m
    | none =>
      match parseSaddr p.ctx with
      | none => { m with out := m.out ++ [tcActOk] }
      | some k => { m with cpus := setCpu m.cpus c (some ⟨k, p.nowNs, p.reserved, .lookup⟩) }
  | .step c =>
    match m.cpus c with
    | none => m
    | some inv =>
      match tcStep cfg m.maps inv with
      | (maps, .inl inv') => { m with maps := maps, cpus := setCpu m.cpus c (some inv') }
      | (maps, .inr v) => ⟨maps, setCpu m.cpus c none, m.out ++ [v]⟩

def machineRun (cfg : Rodata) (m : Machine) (evs : List CpuEv) : Machine :=
  evs.foldl (machineStep cfg) m

/-- The most accesses one invocation makes: a drop after a refill. -/
def maxAccesses : Nat := 9

/-- Each frame on its CPU, run to its end before the next arrives. -/
def serial : List (Nat × Packet) → List CpuEv
  | [] => []
  | (c, p) :: ps => .arrive c p :: List.replicate maxAccesses (.step c) ++ serial ps

/-- One invocation alone for `n` accesses: the maps, and where it is or what it returned. -/
def soloRun (cfg : Rodata) : Nat → BpfMaps → TcInv → BpfMaps × (TcInv ⊕ Int)
  | 0, maps, inv => (maps, .inl inv)
  | n + 1, maps, inv =>
    match tcStep cfg maps inv with
    | (maps', .inl inv') => soloRun cfg n maps' inv'
    | (maps', .inr v) => (maps', .inr v)

/-- What an invocation of `k` at `nowNs` that returns the verdict and the entry `r` leaves in the
maps: the entry under `k`, and the record of a drop when the reservation finds room. -/
def BpfMaps.settle (maps : BpfMaps) (k : BitVec 32) (nowNs : BitVec 64) (reserved : Bool)
    (r : Int × RateState) : BpfMaps :=
  { rateMap := maps.rateMap.updateElem k r.2
    rb := maps.rb ++ if r.1 = tcActShot ∧ reserved then [⟨k, nowNs, r.2.dropped⟩] else [] }

theorem tcIngress_eq_settle (cfg : Rodata) (maps : BpfMaps) {ctx : SkBuff} (nowNs : BitVec 64)
    (reserved : Bool) {k : BitVec 32} (h : parseSaddr ctx = some k) :
    tcIngress cfg maps ctx nowNs reserved =
      ((sourceStep cfg (maps.rateMap.lookupElem k) nowNs).1,
       maps.settle k nowNs reserved (sourceStep cfg (maps.rateMap.lookupElem k) nowNs)) :=
  tcIngress_eq cfg maps nowNs reserved h

/-! ## Accesses to an entry -/

theorem RateMap.updateElem_updateElem_self (m : RateMap) (k : BitVec 32) (v v' : RateState) :
    (m.updateElem k v).updateElem k v' = m.updateElem k v' := by
  unfold RateMap.updateElem
  split_ifs <;> simp_all [AList.insert_insert]

namespace BpfMaps

variable (maps : BpfMaps) {k : BitVec 32} {st : RateState}

theorem entry_of_lookupElem (h : maps.rateMap.lookupElem k = some st) : maps.entry k = st := by
  simp [entry, h]

theorem entry_updateElem (h : maps.rateMap.HasRoom k) (v : RateState) :
    ({ maps with rateMap := maps.rateMap.updateElem k v } : BpfMaps).entry k = v := by
  simp [entry, h]

theorem store_of_lookupElem (f : RateState → RateState) (h : maps.rateMap.lookupElem k = some st) :
    maps.store k f = { maps with rateMap := maps.rateMap.updateElem k (f st) } := by
  simp [store, h]

@[simp] theorem store_rb (f : RateState → RateState) : (maps.store k f).rb = maps.rb := by
  unfold store
  split <;> rfl

theorem store_updateElem (h : maps.rateMap.HasRoom k) (v : RateState) (f : RateState → RateState) :
    ({ maps with rateMap := maps.rateMap.updateElem k v } : BpfMaps).store k f =
      { maps with rateMap := maps.rateMap.updateElem k (f v) } := by
  rw [store_of_lookupElem { maps with rateMap := maps.rateMap.updateElem k v } f
      (RateMap.lookupElem_updateElem_self _ _ v h),
    RateMap.updateElem_updateElem_self]

theorem lookupElem_store (f : RateState → RateState) (k' : BitVec 32) :
    (maps.store k f).rateMap.lookupElem k' =
      if k' = k then (maps.rateMap.lookupElem k).map f else maps.rateMap.lookupElem k' := by
  unfold store
  split
  · rename_i h
    by_cases hk : k' = k
    · subst hk
      simp [h, RateMap.hasRoom_of_lookupElem _ h]
    · simp [hk]
  · rename_i h
    split_ifs with hk <;> simp [hk, h]

theorem settle_updateElem (v : RateState) (nowNs : BitVec 64) (reserved : Bool)
    (r : Int × RateState) :
    ({ maps with rateMap := maps.rateMap.updateElem k v } : BpfMaps).settle k nowNs reserved r =
      maps.settle k nowNs reserved r := by
  simp [settle, RateMap.updateElem_updateElem_self]

end BpfMaps

/-! ## One invocation alone -/

section Solo

variable (cfg : Rodata) (maps : BpfMaps) (k : BitVec 32) (nowNs : BitVec 64) (reserved : Bool)

/-- From the load that decides, with `e` in `k`'s entry: the verdict of `consumeToken e` and its
entry. -/
theorem soloRun_check (n : Nat) {e : RateState} (he : maps.rateMap.lookupElem k = some e) :
    soloRun cfg (n + 4) maps ⟨k, nowNs, reserved, .check⟩ =
      (maps.settle k nowNs reserved
        (if (consumeToken e).1 then tcActOk else tcActShot, (consumeToken e).2),
       .inr (if (consumeToken e).1 then tcActOk else tcActShot)) := by
  have hent := maps.entry_of_lookupElem he
  unfold consumeToken
  by_cases ht : 0#32 < e.tokens
  · simp [soloRun, tcStep, hent, ht, maps.store_of_lookupElem _ he, BpfMaps.settle, tcActOk,
      tcActShot]
  · cases reserved <;>
      simp [soloRun, tcStep, hent, ht, maps.store_of_lookupElem _ he, BpfMaps.settle,
        BpfMaps.submit, maps.entry_updateElem (RateMap.hasRoom_of_lookupElem _ he)]

/-- From the load of `st->last_ts_ns`, with `st` in `k`'s entry: what the sequential program
does with `st`. -/
theorem soloRun_loadLast (n : Nat) {st : RateState} (hst : maps.rateMap.lookupElem k = some st) :
    soloRun cfg (n + 8) maps ⟨k, nowNs, reserved, .loadLast⟩ =
      (maps.settle k nowNs reserved (sourceStep cfg (some st) nowNs),
       .inr (sourceStep cfg (some st) nowNs).1) := by
  have hent := maps.entry_of_lookupElem hst
  have hroom := RateMap.hasRoom_of_lookupElem _ hst
  cases hg : refillGrant cfg st.lastTsNs nowNs with
  | none =>
    have hr : refillTokens cfg st nowNs = st := by rw [refillTokens_eq_grant, hg]
    -- the load of `st->last_ts_ns` grants nothing
    have h1 : soloRun cfg (n + 8) maps ⟨k, nowNs, reserved, .loadLast⟩ =
        soloRun cfg (n + 3 + 4) maps ⟨k, nowNs, reserved, .check⟩ := by
      simp only [soloRun, tcStep, hent, hg]
    rw [h1, soloRun_check cfg maps k nowNs reserved _ hst, sourceStep, hr]
  | some add =>
    have hr : refillTokens cfg st nowNs =
        { st with tokens := cappedTokens cfg st.tokens add, lastTsNs := nowNs } := by
      rw [refillTokens_eq_grant, hg]
    -- the load of `st->tokens` and the two stores of the refill
    have h4 : soloRun cfg (n + 8) maps ⟨k, nowNs, reserved, .loadLast⟩ =
        soloRun cfg (n + 4)
          { maps with rateMap := maps.rateMap.updateElem k (refillTokens cfg st nowNs) }
          ⟨k, nowNs, reserved, .check⟩ := by
      simp only [soloRun, tcStep, hent, hg, maps.store_of_lookupElem _ hst,
        maps.store_updateElem hroom, hr]
    rw [h4, soloRun_check cfg _ k nowNs reserved _
      (RateMap.lookupElem_updateElem_self _ _ _ hroom), BpfMaps.settle_updateElem]
    rfl

/-- **One invocation alone is `tc_ingress`.** Run with no other CPU between its accesses, an
invocation of `k` ends within `maxAccesses` accesses, with the verdict and the maps of the
sequential program. -/
theorem soloRun_lookup (n : Nat) :
    soloRun cfg (n + maxAccesses) maps ⟨k, nowNs, reserved, .lookup⟩ =
      (maps.settle k nowNs reserved (sourceStep cfg (maps.rateMap.lookupElem k) nowNs),
       .inr (sourceStep cfg (maps.rateMap.lookupElem k) nowNs).1) := by
  cases hl : maps.rateMap.lookupElem k with
  | none => simp [soloRun, tcStep, hl, sourceStep, BpfMaps.settle, tcActOk, tcActShot]
  | some st =>
    have h1 : soloRun cfg (n + maxAccesses) maps ⟨k, nowNs, reserved, .lookup⟩ =
        soloRun cfg (n + 8) maps ⟨k, nowNs, reserved, .loadLast⟩ := by
      rw [show n + maxAccesses = n + 8 + 1 from rfl, soloRun]
      simp [tcStep, hl]
    rw [h1, soloRun_loadLast cfg maps k nowNs reserved _ hl]

end Solo

/-! ## Runs of the machine -/

@[simp] theorem machineRun_nil (cfg : Rodata) (m : Machine) : machineRun cfg m [] = m := rfl

@[simp] theorem machineRun_cons (cfg : Rodata) (m : Machine) (e : CpuEv) (evs : List CpuEv) :
    machineRun cfg m (e :: evs) = machineRun cfg (machineStep cfg m e) evs := rfl

theorem machineRun_append (cfg : Rodata) (m : Machine) (evs evs' : List CpuEv) :
    machineRun cfg m (evs ++ evs') = machineRun cfg (machineRun cfg m evs) evs' :=
  List.foldl_append _ _ _ _

section SetCpu

variable (cpus : Nat → Option TcInv) (c : Nat)

@[simp] theorem setCpu_same (v : Option TcInv) : setCpu cpus c v c = v := if_pos rfl

@[simp] theorem setCpu_ne {c' : Nat} (v : Option TcInv) (h : c' ≠ c) :
    setCpu cpus c v c' = cpus c' := if_neg h

@[simp] theorem setCpu_setCpu (v w : Option TcInv) :
    setCpu (setCpu cpus c v) c w = setCpu cpus c w := by
  funext c'
  unfold setCpu
  split <;> rfl

theorem setCpu_forall {P : TcInv → Prop} {v : Option TcInv}
    (h : ∀ c' inv, cpus c' = some inv → P inv) (hv : ∀ inv, v = some inv → P inv) :
    ∀ c' inv, setCpu cpus c v c' = some inv → P inv := by
  intro c' inv h'
  unfold setCpu at h'
  split at h'
  · exact hv _ h'
  · exact h _ _ h'

theorem setCpu_self {v : Option TcInv} (h : cpus c = v) : setCpu cpus c v = cpus := by
  funext c'
  unfold setCpu
  split <;> simp_all

end SetCpu

section Steps

variable (cfg : Rodata) {m : Machine} {c : Nat}

/-- A CPU with nothing in flight ignores its steps. -/
theorem machineRun_steps_idle (h : m.cpus c = none) (n : Nat) :
    machineRun cfg m (List.replicate n (.step c)) = m := by
  induction n with
  | zero => rfl
  | succ n ih => rw [List.replicate_succ, machineRun_cons, machineStep, h, ih]

/-- Steps of one CPU are the invocation it runs, alone. -/
theorem machineRun_steps {inv : TcInv} (h : m.cpus c = some inv) (n : Nat) :
    machineRun cfg m (List.replicate n (.step c)) =
      match soloRun cfg n m.maps inv with
      | (maps, .inl inv') => { m with maps := maps, cpus := setCpu m.cpus c (some inv') }
      | (maps, .inr v) => ⟨maps, setCpu m.cpus c none, m.out ++ [v]⟩ := by
  induction n generalizing m inv with
  | zero => simp [soloRun, setCpu_self _ _ h]
  | succ n ih =>
    rw [List.replicate_succ, machineRun_cons, soloRun]
    cases hs : tcStep cfg m.maps inv with
    | mk maps r =>
      cases r with
      | inl inv' =>
        have hm : machineStep cfg m (.step c) =
            { m with maps := maps, cpus := setCpu m.cpus c (some inv') } := by
          simp [machineStep, h, hs]
        rw [hm, ih (setCpu_same _ _ _)]
        simp
      | inr v =>
        have hm : machineStep cfg m (.step c) = ⟨maps, setCpu m.cpus c none, m.out ++ [v]⟩ := by
          simp [machineStep, h, hs]
        rw [hm, machineRun_steps_idle cfg (setCpu_same _ _ _)]

end Steps

/-- A frame on an idle CPU, run to its end before anything else happens, is one `tc_ingress`. -/
theorem machineRun_arrive_steps (cfg : Rodata) (maps : BpfMaps) (out : List Int) (c : Nat)
    (p : Packet) :
    machineRun cfg ⟨maps, fun _ => none, out⟩ (.arrive c p :: List.replicate maxAccesses (.step c)) =
      ⟨(tcIngress cfg maps p.ctx p.nowNs p.reserved).2, fun _ => none,
       out ++ [(tcIngress cfg maps p.ctx p.nowNs p.reserved).1]⟩ := by
  rw [machineRun_cons]
  cases hp : parseSaddr p.ctx with
  | none =>
    simp only [machineStep, hp, tcIngress_of_parseSaddr_none cfg maps p.nowNs p.reserved hp]
    exact machineRun_steps_idle cfg rfl _
  | some k =>
    have hm : machineStep cfg ⟨maps, fun _ => none, out⟩ (.arrive c p) =
        ⟨maps, setCpu (fun _ => none) c (some ⟨k, p.nowNs, p.reserved, .lookup⟩), out⟩ := by
      simp [machineStep, hp]
    have hsolo := soloRun_lookup cfg maps k p.nowNs p.reserved 0
    rw [Nat.zero_add] at hsolo
    have hc : (machineStep cfg ⟨maps, fun _ => none, out⟩ (.arrive c p)).cpus c =
        some ⟨k, p.nowNs, p.reserved, .lookup⟩ := by
      rw [hm]
      exact setCpu_same (fun _ => none) c _
    rw [machineRun_steps cfg hc, hm]
    dsimp only
    rw [hsolo, tcIngress_eq_settle _ _ _ _ hp]
    simp [setCpu_self]

theorem machineRun_serial (cfg : Rodata) (ps : List (Nat × Packet)) (maps : BpfMaps)
    (out : List Int) :
    machineRun cfg ⟨maps, fun _ => none, out⟩ (serial ps) =
      ⟨(runTc cfg maps (ps.map Prod.snd)).2, fun _ => none,
       out ++ (runTc cfg maps (ps.map Prod.snd)).1⟩ := by
  induction ps generalizing maps out with
  | nil => simp [serial]
  | cons cp ps ih =>
    rw [serial, machineRun_append, machineRun_arrive_steps, ih]
    simp

/-- **Serial schedules are the sequential program.** Frames on any CPUs, each run to its end
before the next arrives, give the verdicts and the maps of `runTc` on the frames in order. -/
theorem serial_eq_runTc (cfg : Rodata) (maps : BpfMaps) (ps : List (Nat × Packet)) :
    machineRun cfg (Machine.start maps) (serial ps) =
      ⟨(runTc cfg maps (ps.map Prod.snd)).2, fun _ => none, (runTc cfg maps (ps.map Prod.snd)).1⟩ :=
  machineRun_serial cfg ps maps []

/-! ## The cap under every schedule -/

/-- The count an invocation holds to store is at most `burst`: the capped count before its
store, and the count it read before `st->tokens--`, which is also positive. -/
def TcPc.Capped (cfg : Rodata) : TcPc → Prop
  | .storeTokens t => t.toNat ≤ cfg.burst.toNat
  | .decrement t => 0 < t.toNat ∧ t.toNat ≤ cfg.burst.toNat
  | _ => True

/-- Every entry, and every count an invocation in flight will store, is at most `burst`. -/
structure Machine.Capped (cfg : Rodata) (m : Machine) : Prop where
  entries : ∀ k st, m.maps.rateMap.lookupElem k = some st → st.tokens.toNat ≤ cfg.burst.toNat
  cpus : ∀ c inv, m.cpus c = some inv → inv.pc.Capped cfg

section Cap

variable {cfg : Rodata} (hB : 0 < cfg.burst.toInt)
include hB

/-- The refill's store never exceeds `burst`, whatever count it read. -/
theorem cappedTokens_le (k : BitVec 32) (add : BitVec 64) :
    (cappedTokens cfg k add).toNat ≤ cfg.burst.toNat := by
  have h64 := toNat_signExtend_of_toInt_pos hB
  have hlt := toNat_lt_of_toInt_pos hB
  unfold cappedTokens
  dsimp only
  split <;> simp only [BitVec.lt_def, BitVec.toNat_setWidth, h64] at * <;> omega

/-- One access keeps the cap on the entries and on the count the invocation will store next. -/
theorem tcStep_capped {maps : BpfMaps}
    (hE : ∀ k st, maps.rateMap.lookupElem k = some st → st.tokens.toNat ≤ cfg.burst.toNat)
    (inv : TcInv) (hpc : inv.pc.Capped cfg) :
    (∀ k st, (tcStep cfg maps inv).1.rateMap.lookupElem k = some st →
      st.tokens.toNat ≤ cfg.burst.toNat) ∧
    ∀ inv', (tcStep cfg maps inv).2 = .inl inv' → inv'.pc.Capped cfg := by
  obtain ⟨k, nowNs, reserved, pc⟩ := inv
  -- a store that writes a count within the cap, or leaves the count alone
  have hstore : ∀ f : RateState → RateState,
      (∀ e, e.tokens.toNat ≤ cfg.burst.toNat → (f e).tokens.toNat ≤ cfg.burst.toNat) →
      ∀ k' st, (maps.store k f).rateMap.lookupElem k' = some st →
        st.tokens.toNat ≤ cfg.burst.toNat := by
    intro f hf k' st h
    rw [BpfMaps.lookupElem_store] at h
    split at h
    · obtain ⟨e, he, rfl⟩ := Option.map_eq_some'.1 h
      exact hf e (hE _ e he)
    · exact hE k' st h
  have hentry : (maps.entry k).tokens.toNat ≤ cfg.burst.toNat := by
    unfold BpfMaps.entry
    cases h : maps.rateMap.lookupElem k
    · exact Nat.zero_le _
    · exact hE _ _ h
  cases pc with
  | lookup =>
    refine ⟨hE, ?_⟩
    rintro _ ⟨⟩
    split <;> trivial
  | insert =>
    refine ⟨fun k' st h => ?_, fun _ h => nomatch h⟩
    simp only [tcStep, RateMap.lookupElem_updateElem] at h
    split at h
    · cases h
      rw [firstSeen_tokens cfg _ hB]
      omega
    · exact hE k' st h
  | loadLast =>
    refine ⟨hE, ?_⟩
    rintro _ ⟨⟩
    split <;> trivial
  | loadTokens add => exact ⟨hE, by rintro _ ⟨⟩; exact cappedTokens_le hB _ _⟩
  | storeTokens t => exact ⟨hstore _ fun _ _ => hpc, by rintro _ ⟨⟩; trivial⟩
  | storeLast => exact ⟨hstore _ fun _ h => h, by rintro _ ⟨⟩; trivial⟩
  | check =>
    refine ⟨hE, ?_⟩
    rintro _ ⟨⟩
    split
    · exact ⟨by simpa [BitVec.lt_def] using ‹_›, hentry⟩
    · trivial
  | decrement t =>
    refine ⟨hstore _ fun _ _ => ?_, fun _ h => nomatch h⟩
    simp only [TcPc.Capped] at hpc
    simp only [BitVec.toNat_sub, BitVec.toNat_ofNat]
    omega
  | loadDropped => exact ⟨hE, by rintro _ ⟨⟩; trivial⟩
  | storeDropped d => exact ⟨hstore _ fun _ h => h, by rintro _ ⟨⟩; trivial⟩
  | submit => exact ⟨by simpa [tcStep] using hE, fun _ h => nomatch h⟩

theorem Machine.Capped.step {m : Machine} (h : m.Capped cfg) (e : CpuEv) :
    (machineStep cfg m e).Capped cfg := by
  cases e with
  | arrive c p =>
    cases hc : m.cpus c with
    | some _ => simpa only [machineStep, hc] using h
    | none =>
      cases hp : parseSaddr p.ctx with
      | none =>
        simp only [machineStep, hc, hp]
        exact ⟨h.entries, h.cpus⟩
      | some k =>
        simp only [machineStep, hc, hp]
        exact ⟨h.entries, setCpu_forall _ _ h.cpus fun _ hv => by cases hv; trivial⟩
  | step c =>
    cases hc : m.cpus c with
    | none => simpa only [machineStep, hc] using h
    | some inv =>
      have hs := tcStep_capped hB h.entries inv (h.cpus c inv hc)
      cases heq : tcStep cfg m.maps inv with
      | mk maps r =>
        rw [heq] at hs
        cases r with
        | inl inv' =>
          simp only [machineStep, hc, heq]
          exact ⟨hs.1, setCpu_forall _ _ h.cpus fun _ hv => by cases hv; exact hs.2 _ rfl⟩
        | inr v =>
          simp only [machineStep, hc, heq]
          exact ⟨hs.1, setCpu_forall _ _ h.cpus fun _ hv => nomatch hv⟩

theorem Machine.Capped.run {m : Machine} (h : m.Capped cfg) (evs : List CpuEv) :
    (machineRun cfg m evs).Capped cfg := by
  induction evs generalizing m with
  | nil => exact h
  | cons e evs ih => exact ih (h.step hB e)

end Cap

theorem Machine.capped_start (cfg : Rodata) : (Machine.start BpfMaps.init).Capped cfg :=
  ⟨fun _ _ h => by simp [Machine.start] at h, fun _ _ h => nomatch h⟩

/-- **Bucket bound on every schedule.** With `burst > 0`, however the invocations on the CPUs
interleave their accesses, every entry of `rate_map` in every state a run reaches holds at most
`burst` tokens: the refill's store is capped whatever count it read, and a decrement stores one
less than a count it read. -/
theorem tokens_le_burst_interleaved (cfg : Rodata) (hB : 0 < cfg.burst.toInt) (evs : List CpuEv)
    (k : BitVec 32) (st : RateState)
    (h : (machineRun cfg (Machine.start BpfMaps.init) evs).maps.rateMap.lookupElem k = some st) :
    (st.tokens.toNat : Int) ≤ cfg.burst.toInt := by
  have := ((Machine.capped_start cfg).run hB evs).entries k st h
  rw [toInt_eq_toNat_of_toInt_pos hB]
  omega

/-- At 1000 packets a second with `burst = 2`, after a first packet from `192.168.1.1` at 0,
two packets at 2 ms on CPUs 0 and 1 interleave access by access: both refill to 2, both read 2
and both store 1. -/
theorem tokens_le_burst_interleaved_two_cpus :
    (0 < (2#32 : BitVec 32).toInt ∧
      (machineRun ⟨1000#32, 2#32⟩ (Machine.start BpfMaps.init)
        [.arrive 0 ⟨ipv4Frame 0x0101a8c0#32, 0#64, true⟩, .step 0, .step 0,
         .arrive 0 ⟨ipv4Frame 0x0101a8c0#32, 2000000#64, true⟩,
         .arrive 1 ⟨ipv4Frame 0x0101a8c0#32, 2000000#64, true⟩,
         .step 0, .step 1, .step 0, .step 1, .step 0, .step 1, .step 0, .step 1,
         .step 0, .step 1, .step 0, .step 1, .step 0, .step 1]).maps.rateMap.lookupElem
          0x0101a8c0#32 = some ⟨2000000#64, 1#32, 0#32⟩) ∧
      ((1#32 : BitVec 32).toNat : Int) ≤ (2#32 : BitVec 32).toInt := by
  refine ⟨⟨by decide, ?run⟩,
    tokens_le_burst_interleaved ⟨1000#32, 2#32⟩ (by decide) _ 0x0101a8c0#32 _ ?run⟩
  decide

/-! ## What interleaving adds -/

/-- A clock reading `d` ns before the stored `last_ts_ns`, with `d * rate` at least `burst`
seconds' worth below `2^64`: `elapsed` wraps to `2^64 - d`, the product to `2^64 - d * rate`, and
the refill grants at least `burst` tokens, so the packet passes with a full bucket less one, and
`last_ts_ns` moves back to the reading. -/
theorem sourceStep_of_overtaken {cfg : Rodata} (hR : 0 < cfg.rateLimitPps.toInt)
    (hB : 0 < cfg.burst.toInt) {st : RateState} {nowNs : BitVec 64} {d : Nat} (hd : 0 < d)
    (hlast : st.lastTsNs.toNat = nowNs.toNat + d)
    (hw : d * cfg.rateLimitPps.toNat + cfg.burst.toNat * 10 ^ 9 ≤ 2 ^ 64) :
    sourceStep cfg (some st) nowNs = (tcActOk, ⟨nowNs, cfg.burst - 1#32, st.dropped⟩) := by
  have hRn := toNat_signExtend_of_toInt_pos hR
  have hRpos := toNat_pos_of_toInt_pos hR
  have hBpos := toNat_pos_of_toInt_pos hB
  have hBlt := toNat_lt_of_toInt_pos hB
  have helapsed : (nowNs - st.lastTsNs).toNat = 2 ^ 64 - d := by
    rw [BitVec.toNat_sub, hlast, show 2 ^ 64 - (nowNs.toNat + d) + nowNs.toNat = 2 ^ 64 - d by omega,
      Nat.mod_eq_of_lt (by omega)]
  have hdR : 0 < d * cfg.rateLimitPps.toNat := Nat.mul_pos hd hRpos
  -- `(2^64 - d) * rate` is `2^64 - d * rate` modulo `2^64`
  have hprod : refillProduct cfg st nowNs = 2 ^ 64 - d * cfg.rateLimitPps.toNat := by
    rw [refillProduct, BitVec.toNat_mul, helapsed, hRn, Nat.sub_mul,
      show 2 ^ 64 * cfg.rateLimitPps.toNat - d * cfg.rateLimitPps.toNat =
        2 ^ 64 * (cfg.rateLimitPps.toNat - 1) + (2 ^ 64 - d * cfg.rateLimitPps.toNat) by omega,
      Nat.mul_add_mod, Nat.mod_eq_of_lt (by omega)]
  have hadd : cfg.burst.toNat ≤ refillAdd cfg st nowNs := by
    rw [refillAdd, hprod, Nat.le_div_iff_mul_le (by decide)]
    omega
  have hrefill : refillTokens cfg st nowNs = ⟨nowNs, cfg.burst, st.dropped⟩ := by
    rw [refillTokens_eq st nowNs hB, if_pos ⟨hR, by omega⟩, Nat.min_eq_right (by omega),
      BitVec.ofNat_toNat, BitVec.setWidth_eq]
  have hpos : 0#32 < cfg.burst := by
    simpa [BitVec.lt_def] using hBpos
  simp [sourceStep, hrefill, consumeToken, hpos]

/-- **An overtaken clock reading refills the bucket.** Invocations read the clock before the
lookup, so another CPU's refill can store a `last_ts_ns` later than the reading of an invocation
still to look up its entry, with a clock that never goes back. Run from there, that invocation
sees `elapsed` wrap: whatever the entry held, it refills to `burst`, passes, stores `burst - 1`
tokens, and moves `last_ts_ns` back to its own reading. -/
theorem overtaken_reading_refills (cfg : Rodata) (hR : 0 < cfg.rateLimitPps.toInt)
    (hB : 0 < cfg.burst.toInt) (m : Machine) (c : Nat) (inv : TcInv) (hc : m.cpus c = some inv)
    (hpc : inv.pc = .lookup) (st : RateState)
    (hst : m.maps.rateMap.lookupElem inv.srcIp = some st) (d : Nat) (hd : 0 < d)
    (hlast : st.lastTsNs.toNat = inv.nowNs.toNat + d)
    (hw : d * cfg.rateLimitPps.toNat + cfg.burst.toNat * 10 ^ 9 ≤ 2 ^ 64) :
    (machineRun cfg m (List.replicate maxAccesses (.step c))).out = m.out ++ [tcActOk] ∧
      (machineRun cfg m (List.replicate maxAccesses (.step c))).maps.rateMap.lookupElem
        inv.srcIp = some ⟨inv.nowNs, cfg.burst - 1#32, st.dropped⟩ ∧
      (machineRun cfg m (List.replicate maxAccesses (.step c))).cpus c = none := by
  obtain ⟨k, nowNs, reserved, pc⟩ := inv
  subst hpc
  have hsolo := soloRun_lookup cfg m.maps k nowNs reserved 0
  rw [Nat.zero_add, hst, sourceStep_of_overtaken hR hB hd hlast hw] at hsolo
  rw [machineRun_steps cfg hc, hsolo]
  simp [BpfMaps.settle, RateMap.hasRoom_of_lookupElem _ hst]

/-- At 1000 packets a second with `burst = 2`: CPU 0 about to look up `192.168.1.1` with the
reading 1 ms, whose entry another CPU left at 1 token and `last_ts_ns = 2 ms`. -/
theorem overtaken_reading_refills_one_ms :
    (0 < (1000#32 : BitVec 32).toInt ∧ 0 < (2#32 : BitVec 32).toInt ∧
      setCpu (fun _ => none) 0 (some ⟨0x0101a8c0#32, 1000000#64, true, .lookup⟩) 0 =
        some ⟨0x0101a8c0#32, 1000000#64, true, .lookup⟩ ∧ TcPc.lookup = TcPc.lookup ∧
      (RateMap.empty.updateElem 0x0101a8c0#32 ⟨2000000#64, 1#32, 0#32⟩).lookupElem 0x0101a8c0#32 =
        some ⟨2000000#64, 1#32, 0#32⟩ ∧ 0 < 1000000 ∧
      (2000000#64 : BitVec 64).toNat = (1000000#64 : BitVec 64).toNat + 1000000 ∧
      1000000 * (1000#32 : BitVec 32).toNat + (2#32 : BitVec 32).toNat * 10 ^ 9 ≤ 2 ^ 64) ∧
    (machineRun ⟨1000#32, 2#32⟩
        ⟨⟨RateMap.empty.updateElem 0x0101a8c0#32 ⟨2000000#64, 1#32, 0#32⟩, []⟩,
         setCpu (fun _ => none) 0 (some ⟨0x0101a8c0#32, 1000000#64, true, .lookup⟩), []⟩
        (List.replicate maxAccesses (.step 0))).out = [] ++ [tcActOk] ∧
      (machineRun ⟨1000#32, 2#32⟩
        ⟨⟨RateMap.empty.updateElem 0x0101a8c0#32 ⟨2000000#64, 1#32, 0#32⟩, []⟩,
         setCpu (fun _ => none) 0 (some ⟨0x0101a8c0#32, 1000000#64, true, .lookup⟩), []⟩
        (List.replicate maxAccesses (.step 0))).maps.rateMap.lookupElem 0x0101a8c0#32 =
        some ⟨1000000#64, 2#32 - 1#32, 0#32⟩ ∧
      (machineRun ⟨1000#32, 2#32⟩
        ⟨⟨RateMap.empty.updateElem 0x0101a8c0#32 ⟨2000000#64, 1#32, 0#32⟩, []⟩,
         setCpu (fun _ => none) 0 (some ⟨0x0101a8c0#32, 1000000#64, true, .lookup⟩), []⟩
        (List.replicate maxAccesses (.step 0))).cpus 0 = none := by
  refine ⟨⟨by decide, by decide, ?hc, rfl, ?hst, by decide, by decide, by decide⟩,
    overtaken_reading_refills ⟨1000#32, 2#32⟩ (by decide) (by decide) _ 0 _ ?hc rfl _ ?hst 1000000
      (by decide) (by decide) (by decide)⟩
  · exact setCpu_same _ _ _
  · decide

/-- That state arises with readings that never go back: a first packet at 0 on CPU 0, then
CPU 0 reads 1 ms and CPU 1 reads 2 ms, and CPU 1 runs to its end first. CPU 0 then passes as
well, and `last_ts_ns` goes back from 2 ms to 1 ms. -/
example :
    (machineRun ⟨1000#32, 2#32⟩ (Machine.start BpfMaps.init)
        ([.arrive 0 ⟨ipv4Frame 0x0101a8c0#32, 0#64, true⟩, .step 0, .step 0,
          .arrive 0 ⟨ipv4Frame 0x0101a8c0#32, 1000000#64, true⟩,
          .arrive 1 ⟨ipv4Frame 0x0101a8c0#32, 2000000#64, true⟩] ++
          List.replicate maxAccesses (.step 1))).maps.rateMap.lookupElem 0x0101a8c0#32 =
        some ⟨2000000#64, 1#32, 0#32⟩ ∧
    (machineRun ⟨1000#32, 2#32⟩ (Machine.start BpfMaps.init)
        ([.arrive 0 ⟨ipv4Frame 0x0101a8c0#32, 0#64, true⟩, .step 0, .step 0,
          .arrive 0 ⟨ipv4Frame 0x0101a8c0#32, 1000000#64, true⟩,
          .arrive 1 ⟨ipv4Frame 0x0101a8c0#32, 2000000#64, true⟩] ++
          List.replicate maxAccesses (.step 1) ++ List.replicate maxAccesses (.step 0))).out =
        [tcActOk, tcActOk, tcActOk] ∧
    (machineRun ⟨1000#32, 2#32⟩ (Machine.start BpfMaps.init)
        ([.arrive 0 ⟨ipv4Frame 0x0101a8c0#32, 0#64, true⟩, .step 0, .step 0,
          .arrive 0 ⟨ipv4Frame 0x0101a8c0#32, 1000000#64, true⟩,
          .arrive 1 ⟨ipv4Frame 0x0101a8c0#32, 2000000#64, true⟩] ++
          List.replicate maxAccesses (.step 1) ++
          List.replicate maxAccesses (.step 0))).maps.rateMap.lookupElem 0x0101a8c0#32 =
        some ⟨1000000#64, 1#32, 0#32⟩ := by
  decide

end RateLimiter
