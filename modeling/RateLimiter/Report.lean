import RateLimiter.TcIngress

/-! `handle_event`, the callback the loader gives `ring_buffer__new`: one line per record of
`rb`. A record's `src_ip` is the `__u32` that `tc_ingress` loaded from the IPv4 header, and
`inet_ntop` prints the four bytes of a `struct in_addr` in memory order, so the line names the
source address with its bytes in the order of the header: no byte swap is missing or added
between the packet and the line (`handleEvent_names_header_saddr`). -/

namespace RateLimiter

/-- The bytes in dotted decimal, as `inet_ntop` writes an IPv4 address. -/
def dottedQuad (bs : List (BitVec 8)) : String := ".".intercalate (bs.map fun b => toString b.toNat)

/-- Byte `i` in memory of a `__u32` on a little-endian machine. -/
def memByte (x : BitVec 32) (i : Nat) : BitVec 8 := x.extractLsb' (8 * i) 8

/-- `inet_ntop(AF_INET, &addr, ipbuf, INET_ADDRSTRLEN)` with `addr.s_addr = sAddr`: the four
bytes of `s_addr` in memory order. It never fails with a buffer that long, so `"<invalid>"` is
never printed. -/
def inetNtop (sAddr : BitVec 32) : String :=
  dottedQuad [memByte sAddr 0, memByte sAddr 1, memByte sAddr 2, memByte sAddr 3]

/-- `handle_event`: the line it prints for one record. -/
def handleEvent (e : Event) : String :=
  "Rate-limited packet from " ++ inetNtop e.srcIp ++ ", total dropped for this IP: " ++
    toString e.dropped.toNat ++ "\n"

/-- The four bytes of `saddr` in a frame, in packet order. -/
def saddrBytes (data : List (BitVec 8)) : List (BitVec 8) :=
  (data.drop (ethhdrLen + saddrOffset)).take 4

/-- A `__u32` loaded from packet memory keeps the packet's bytes in memory order. -/
theorem memByte_loadU32 (data : List (BitVec 8)) (off : Nat) :
    [memByte (loadU32 data off) 0, memByte (loadU32 data off) 1, memByte (loadU32 data off) 2,
      memByte (loadU32 data off) 3] =
      [data.getD off 0, data.getD (off + 1) 0, data.getD (off + 2) 0, data.getD (off + 3) 0] := by
  have h0 := (data.getD off 0).isLt
  have h1 := (data.getD (off + 1) 0).isLt
  have h2 := (data.getD (off + 2) 0).isLt
  have h3 := (data.getD (off + 3) 0).isLt
  simp only [memByte, loadU32, List.cons.injEq, and_true]
  refine ⟨?_, ?_, ?_, ?_⟩ <;> apply BitVec.eq_of_toNat_eq <;>
    simp [Nat.shiftRight_eq_div_pow] <;> omega

theorem take_drop_eq_getD (data : List (BitVec 8)) (off : Nat) (h : off + 4 ≤ data.length) :
    (data.drop off).take 4 =
      [data.getD off 0, data.getD (off + 1) 0, data.getD (off + 2) 0, data.getD (off + 3) 0] := by
  have hget : ∀ i, data.getD (off + i) 0 = (data.drop off).getD i 0 := by
    simp [List.getD_eq_getElem?_getD, List.getElem?_drop]
  have h0 := hget 0
  rw [Nat.add_zero] at h0
  have hlen : 4 ≤ (data.drop off).length := by simp; omega
  rw [h0, hget 1, hget 2, hget 3]
  generalize data.drop off = t at hlen ⊢
  match t, hlen with
  | a :: b :: c :: d :: rest, _ => rfl

/-- The key of an inspected frame is its `saddr` field, loaded from a frame long enough to hold
it. -/
theorem parseSaddr_eq_some {ctx : SkBuff} {k : BitVec 32} (h : parseSaddr ctx = some k) :
    ethhdrLen + iphdrLen ≤ ctx.data.length ∧ k = loadU32 ctx.data (ethhdrLen + saddrOffset) := by
  unfold parseSaddr at h
  split_ifs at h with h1 h2 h3
  cases h
  exact ⟨Nat.le_of_not_lt h3, rfl⟩

theorem inetNtop_parseSaddr {ctx : SkBuff} {k : BitVec 32} (h : parseSaddr ctx = some k) :
    inetNtop k = dottedQuad (saddrBytes ctx.data) := by
  obtain ⟨hlen, rfl⟩ := parseSaddr_eq_some h
  rw [inetNtop, memByte_loadU32, saddrBytes,
    take_drop_eq_getD _ _ (by simp only [ethhdrLen, iphdrLen, saddrOffset] at hlen ⊢; omega)]

/-- Every record in `rb` after a run was sent for a packet of the run: the packet's source and
clock reading. -/
theorem mem_rb_runTc (cfg : Rodata) (maps : BpfMaps) (ps : List Packet) {e : Event}
    (h : e ∈ (runTc cfg maps ps).2.rb) :
    e ∈ maps.rb ∨ ∃ p ∈ ps, parseSaddr p.ctx = some e.srcIp ∧ e.tsNs = p.nowNs := by
  induction ps generalizing maps with
  | nil => exact .inl h
  | cons p ps ih =>
      rw [runTc_cons] at h
      rcases ih _ h with h | ⟨q, hq, hrest⟩
      · cases hk : parseSaddr p.ctx with
        | none =>
            rw [tcIngress_of_parseSaddr_none cfg maps p.nowNs p.reserved hk] at h
            exact .inl h
        | some k =>
            rw [tcIngress_eq cfg maps p.nowNs p.reserved hk] at h
            rcases List.mem_append.1 h with h | h
            · exact .inl h
            · split_ifs at h
              · rcases List.mem_singleton.1 h with rfl
                exact .inr ⟨p, .head _, hk, rfl⟩
              · cases h
      · exact .inr ⟨q, .tail _ hq, hrest⟩

/-- **What the loader prints.** Every line `handle_event` prints for a record of a run names
the source address of a packet of the run, with the bytes of its IPv4 `saddr` field in header
order, and the counter the record carries. -/
theorem handleEvent_names_header_saddr (cfg : Rodata) (ps : List Packet) (e : Event)
    (h : e ∈ (runTc cfg BpfMaps.init ps).2.rb) :
    ∃ p ∈ ps, e.tsNs = p.nowNs ∧
      handleEvent e = "Rate-limited packet from " ++ dottedQuad (saddrBytes p.ctx.data) ++
        ", total dropped for this IP: " ++ toString e.dropped.toNat ++ "\n" := by
  rcases mem_rb_runTc cfg BpfMaps.init ps h with h | ⟨p, hp, hk, ht⟩
  · cases h
  · exact ⟨p, hp, ht, by rw [handleEvent, inetNtop_parseSaddr hk]⟩

theorem handleEvent_names_header_saddr_second_drop :
    ⟨0x0101a8c0#32, 0#64, 1#32⟩ ∈ (runTc ⟨1000#32, 1#32⟩ BpfMaps.init
        [⟨ipv4Frame 0x0101a8c0#32, 0#64, true⟩, ⟨ipv4Frame 0x0101a8c0#32, 0#64, true⟩]).2.rb ∧
      ∃ p ∈ [(⟨ipv4Frame 0x0101a8c0#32, 0#64, true⟩ : Packet), ⟨ipv4Frame 0x0101a8c0#32, 0#64, true⟩],
        (⟨0x0101a8c0#32, 0#64, 1#32⟩ : Event).tsNs = p.nowNs ∧
        handleEvent ⟨0x0101a8c0#32, 0#64, 1#32⟩ = "Rate-limited packet from " ++
          dottedQuad (saddrBytes p.ctx.data) ++ ", total dropped for this IP: " ++
          toString (1#32 : BitVec 32).toNat ++ "\n" :=
  have h : (⟨0x0101a8c0#32, 0#64, 1#32⟩ : Event) ∈ (runTc ⟨1000#32, 1#32⟩ BpfMaps.init
      [⟨ipv4Frame 0x0101a8c0#32, 0#64, true⟩, ⟨ipv4Frame 0x0101a8c0#32, 0#64, true⟩]).2.rb := by
    decide
  ⟨h, handleEvent_names_header_saddr _ _ _ h⟩

end RateLimiter
