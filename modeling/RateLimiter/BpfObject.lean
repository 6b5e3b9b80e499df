import Mathlib.Data.List.AList
import Mathlib.Data.Finset.Card

/-! The data of the BPF object `rateLimiter.bpf.c`: the two `.rodata` integers userspace writes
before load, `struct event`, `struct rate_state`, the hash map `rate_map` and the part of
`struct __sk_buff` the program reads. C integers keep their width: `__u32`, `__u64` and `int`
are `BitVec 32`, `BitVec 64` and `BitVec 32` read as two's complement, so every cast and every
wrap of the source is a `BitVec` operation. `rate_map` carries its capacity bound as a field:
a map with more than `max_entries` keys cannot be built. The ring buffer `rb` is the list of
records submitted and not yet consumed; whether `bpf_ringbuf_reserve` finds room is an input of
each run, since it depends on the consumer. -/

namespace RateLimiter

/-- `TC_ACT_OK`. -/
def tcActOk : Int := 0

/-- `TC_ACT_SHOT`. -/
def tcActShot : Int := 2

/-- `ETH_P_IP`, in host order. -/
def ethPIp : BitVec 16 := 0x0800#16

/-- `bpf_htons` on a little-endian BPF target: swap the two bytes. -/
def bpfHtons (x : BitVec 16) : BitVec 16 := (x <<< 8) ||| (x >>> 8)

/-- `sizeof(struct ethhdr)`. -/
def ethhdrLen : Nat := 14

/-- `sizeof(struct iphdr)`. -/
def iphdrLen : Nat := 20

/-- `offsetof(struct iphdr, saddr)`. -/
def saddrOffset : Nat := 12

/-- The `.rodata` section: `rate_limit_pps` and `burst`, both `int`. -/
structure Rodata where
  rateLimitPps : BitVec 32
  burst : BitVec 32
  deriving DecidableEq, Repr

/-- The initializers of the two `.rodata` variables. -/
def Rodata.default : Rodata := ⟨1000#32, 200#32⟩

/-- `struct rate_state`. -/
structure RateState where
  lastTsNs : BitVec 64
  tokens : BitVec 32
  dropped : BitVec 32
  deriving DecidableEq, Repr

/-- `struct event`, one ring-buffer record per dropped packet. -/
structure Event where
  srcIp : BitVec 32
  tsNs : BitVec 64
  dropped : BitVec 32
  deriving DecidableEq, Repr

/-- `__uint(max_entries, 16384)` of `rate_map`. -/
def rateMapMaxEntries : Nat := 16384

/-- `rate_map`: a `BPF_MAP_TYPE_HASH` from `__u32` source addresses to `struct rate_state`. -/
structure RateMap where
  table : AList (fun _ : BitVec 32 => RateState)
  size_le : table.keys.length ≤ rateMapMaxEntries

namespace RateMap

/-- The map as the kernel creates it. -/
def empty : RateMap := ⟨∅, Nat.zero_le _⟩

/-- The number of keys. -/
def size (m : RateMap) : Nat := m.table.keys.length

/-- `bpf_map_lookup_elem`; the value is what the returned pointer reaches. -/
def lookupElem (m : RateMap) (k : BitVec 32) : Option RateState := m.table.lookup k

theorem insert_size_le (m : RateMap) (k : BitVec 32) (v : RateState)
    (h : k ∈ m.table.keys ∨ m.table.keys.length < rateMapMaxEntries) :
    (m.table.insert k v).keys.length ≤ rateMapMaxEntries := by
  rw [AList.keys_insert, List.length_cons]
  by_cases hk : k ∈ m.table.keys
  · rw [List.length_erase_of_mem hk]
    have := List.length_pos_of_mem hk
    have := m.size_le
    omega
  · rw [List.erase_of_not_mem hk]
    have := h.resolve_left hk
    omega

/-- `bpf_map_update_elem(.., BPF_ANY)`, also what a store through a looked-up pointer does: the
key gets the value, unless it is new and the map is full (`-E2BIG`, ignored by the caller). -/
def updateElem (m : RateMap) (k : BitVec 32) (v : RateState) : RateMap :=
  if h : k ∈ m.table.keys ∨ m.table.keys.length < rateMapMaxEntries then
    ⟨m.table.insert k v, insert_size_le m k v h⟩
  else m

/-- Room for `k`: it is already a key, or the map is not full. -/
def HasRoom (m : RateMap) (k : BitVec 32) : Prop :=
  k ∈ m.table.keys ∨ m.size < rateMapMaxEntries

instance (m : RateMap) (k : BitVec 32) : Decidable (m.HasRoom k) :=
  inferInstanceAs (Decidable (_ ∨ _))

@[simp] theorem lookupElem_empty (k : BitVec 32) : empty.lookupElem k = none := rfl

theorem size_le_max (m : RateMap) : m.size ≤ rateMapMaxEntries := m.size_le

theorem mem_keys_iff (m : RateMap) (k : BitVec 32) :
    k ∈ m.table.keys ↔ (m.lookupElem k).isSome := AList.lookup_isSome.symm

theorem lookupElem_updateElem (m : RateMap) (k k' : BitVec 32) (v : RateState) :
    (m.updateElem k v).lookupElem k' =
      if k' = k ∧ m.HasRoom k then some v else m.lookupElem k' := by
  unfold updateElem HasRoom size lookupElem
  by_cases hroom : k ∈ m.table.keys ∨ m.table.keys.length < rateMapMaxEntries
  · rw [dif_pos hroom]
    by_cases hk : k' = k
    · subst hk
      simp [hroom]
    · simp [hk, AList.lookup_insert_ne hk]
  · simp [hroom]

@[simp] theorem lookupElem_updateElem_self (m : RateMap) (k : BitVec 32) (v : RateState)
    (h : m.HasRoom k) : (m.updateElem k v).lookupElem k = some v := by
  simp [lookupElem_updateElem, h]

@[simp] theorem lookupElem_updateElem_ne (m : RateMap) {k k' : BitVec 32} (v : RateState)
    (h : k' ≠ k) : (m.updateElem k v).lookupElem k' = m.lookupElem k' := by
  simp [lookupElem_updateElem, h]

theorem hasRoom_of_lookupElem (m : RateMap) {k : BitVec 32} {st : RateState}
    (h : m.lookupElem k = some st) : m.HasRoom k :=
  .inl ((mem_keys_iff m k).2 (by simp [h]))

/-- The keys after an update are the old keys, and the written key if it found room. -/
theorem keys_updateElem_subset (m : RateMap) (k : BitVec 32) (v : RateState) :
    (m.updateElem k v).table.keys ⊆ k :: m.table.keys := by
  unfold updateElem
  split
  · rw [AList.keys_insert]
    exact List.cons_subset_cons _ (List.erase_subset _ _)
  · exact List.subset_cons_self _ _

/-- No update removes a key, so the map never shrinks. -/
theorem size_le_updateElem (m : RateMap) (k : BitVec 32) (v : RateState) :
    m.size ≤ (m.updateElem k v).size := by
  unfold updateElem size
  split
  · rw [AList.keys_insert, List.length_cons]
    by_cases hk : k ∈ m.table.keys
    · rw [List.length_erase_of_mem hk]
      omega
    · rw [List.erase_of_not_mem hk]
      omega
  · exact le_rfl

theorem updateElem_of_not_hasRoom (m : RateMap) {k : BitVec 32} (v : RateState)
    (h : ¬ m.HasRoom k) : m.updateElem k v = m := by
  unfold updateElem
  exact dif_neg h

/-- A key that finds room joins the keys. -/
theorem keys_toFinset_updateElem (m : RateMap) (k : BitVec 32) (v : RateState) (h : m.HasRoom k) :
    (m.updateElem k v).table.keys.toFinset = insert k m.table.keys.toFinset := by
  unfold HasRoom size at h
  rw [updateElem, dif_pos h, AList.keys_insert]
  ext x
  by_cases hx : x = k <;> simp [hx, m.table.keys_nodup.mem_erase_iff]

/-- A map full without `S` stays so: no update makes room for a new key. -/
theorem not_hasRoom_updateElem (m : RateMap) {S : BitVec 32} (k : BitVec 32) (v : RateState)
    (h : ¬ m.HasRoom S) : ¬ (m.updateElem k v).HasRoom S := by
  by_cases hk : k = S
  · subst hk
    rwa [updateElem_of_not_hasRoom m v h]
  · rintro (h' | h')
    · rcases List.mem_cons.1 (keys_updateElem_subset m k v h') with h' | h'
      · exact hk h'.symm
      · exact h (.inl h')
    · exact h (.inr ((size_le_updateElem m k v).trans_lt h'))

end RateMap

/-- The fields of `struct __sk_buff` that `tc_ingress` reads: `protocol`, and the bytes between
`data` and `data_end`. -/
structure SkBuff where
  protocol : BitVec 32
  data : List (BitVec 8)
  deriving DecidableEq, Repr

/-- A `__u32` load from packet memory at byte offset `off`, little-endian, so the value keeps
the bytes in packet order. -/
def loadU32 (data : List (BitVec 8)) (off : Nat) : BitVec 32 :=
  BitVec.ofNat 32 ((data.getD off 0).toNat + (data.getD (off + 1) 0).toNat * 2 ^ 8 +
    (data.getD (off + 2) 0).toNat * 2 ^ 16 + (data.getD (off + 3) 0).toNat * 2 ^ 24)

/-- The two maps of the object: `rate_map`, and the records waiting in `rb`. -/
structure BpfMaps where
  rateMap : RateMap
  rb : List Event

/-- The maps right after load. -/
def BpfMaps.init : BpfMaps := ⟨RateMap.empty, []⟩

@[simp] theorem BpfMaps.init_rateMap : BpfMaps.init.rateMap = RateMap.empty := rfl

@[simp] theorem BpfMaps.init_rb : BpfMaps.init.rb = [] := rfl

/-- `bpf_ringbuf_reserve` then `bpf_ringbuf_submit`; nothing is written when the reservation
fails. -/
def BpfMaps.submit (maps : BpfMaps) (reserved : Bool) (e : Event) : BpfMaps :=
  if reserved then { maps with rb := maps.rb ++ [e] } else maps

@[simp] theorem BpfMaps.submit_rateMap (maps : BpfMaps) (reserved : Bool) (e : Event) :
    (maps.submit reserved e).rateMap = maps.rateMap := by
  unfold BpfMaps.submit; split <;> rfl

@[simp] theorem BpfMaps.submit_rb (maps : BpfMaps) (reserved : Bool) (e : Event) :
    (maps.submit reserved e).rb = maps.rb ++ if reserved then [e] else [] := by
  unfold BpfMaps.submit; split <;> simp_all

end RateLimiter
