import SecureSession.Proofs.Cbor.Reading

/-! # Reading back values

A decoder reads a value from some bytes if it does so with every budget of at least a given depth.
Numbers, truth values, byte strings, keys, optional values and lists are read back from the items
they are written as. -/

namespace SecureSession.Cbor

variable {α β : Type}

namespace Decoder

open Reader (Reads)

/-- `d` reads `a` from `bytes` with any budget from `depth` on. -/
def ReadsAt (d : Decoder α) (depth : Nat) (bytes : Bytes) (a : α) : Prop :=
  ∀ budget, depth ≤ budget → (d budget).Reads bytes a

variable {d : Decoder α} {depth : Nat} {bytes : Bytes} {a : α}

theorem ReadsAt.mono {depth' : Nat} (h : ReadsAt d depth bytes a) (hd : depth ≤ depth') :
    ReadsAt d depth' bytes a := fun budget hb => h budget (by omega)

theorem ReadsAt.map {f : α → β} (h : ReadsAt d depth bytes a) :
    ReadsAt (map f d) depth bytes (f a) :=
  fun budget hb => (h budget hb).map

theorem ReadsAt.filterMap {f : α → Option β} {b : β} (h : ReadsAt d depth bytes a)
    (hf : f a = some b) : ReadsAt (filterMap f d) depth bytes b := fun budget hb =>
  (h budget hb).last (by rw [hf]; exact Reads.pure b)

/-- Entering takes one from the budget. -/
theorem ReadsAt.enter (h : ReadsAt d depth bytes a) : ReadsAt (enter d) (depth + 1) bytes a := by
  intro budget hb
  obtain ⟨budget, rfl⟩ : ∃ b, budget = b + 1 := ⟨budget - 1, by omega⟩
  exact h budget (by omega)

/-- What a decoder reads at the front of an input. -/
theorem ReadsAt.run (h : ReadsAt d depth bytes a) (hd : depth ≤ depthLimit) (rest : Bytes) :
    run d (bytes ++ rest) = .ok a := by
  rw [Decoder.run, h depthLimit hd]; rfl

/-! ### Numbers and truth values -/

theorem readsAt_natural {bound n : Nat} (hn : n < bound) (hb : bound ≤ UInt64.size) :
    ReadsAt (natural bound) 0 (Item.unsigned n).encode n := by
  intro budget _
  rw [Item.encode]
  refine ((Reader.reads_header_unsigned (by omega)).past (Reader.head_ne_nil _ _) (by simp)).last ?_
  simp only [hn, if_true]
  exact Reads.pure n

theorem readsAt_uint8 (n : UInt8) : ReadsAt uint8 0 (Item.unsigned n.toNat).encode n := by
  have h := (readsAt_natural n.toNat_lt (by decide)).map (f := UInt8.ofNat)
  rwa [UInt8.ofNat_toNat] at h

theorem readsAt_uint32 (n : UInt32) : ReadsAt uint32 0 (Item.unsigned n.toNat).encode n := by
  have h := (readsAt_natural n.toNat_lt (by decide)).map (f := UInt32.ofNat)
  rwa [UInt32.ofNat_toNat] at h

theorem readsAt_uint64 (n : UInt64) : ReadsAt uint64 0 (Item.unsigned n.toNat).encode n := by
  have h := (readsAt_natural n.toNat_lt (by decide)).map (f := UInt64.ofNat)
  rwa [UInt64.ofNat_toNat] at h

theorem readsAt_bool (b : Bool) : ReadsAt bool 0 (Item.bool b).encode b := by
  intro budget _
  cases b
  · have h : Reader.header.Reads [0xf4] (.simple 20) := fun _ => rfl
    exact (h.past (by simp) (by simp)).last (Reads.pure false)
  · have h : Reader.header.Reads [0xf5] (.simple 21) := fun _ => rfl
    exact (h.past (by simp) (by simp)).last (Reads.pure true)

/-! ### Optional values -/

/-- Some bytes that start with a head other than those for no value. -/
def Present (bytes : Bytes) : Prop :=
  ∀ rest, ∃ h left, Reader.header (bytes ++ rest) = .ok (h, left) ∧ h ≠ .simple 22 ∧ h ≠ .simple 23

theorem present_of_header {head tail : Bytes} {h : Header} (hh : Reader.header.Reads head h)
    (h22 : h ≠ .simple 22) (h23 : h ≠ .simple 23) : Present (head ++ tail) := fun rest =>
  ⟨h, tail ++ rest, by rw [List.append_assoc, hh], h22, h23⟩

theorem present_unsigned {n : Nat} (hn : n < UInt64.size) : Present (Item.unsigned n).encode := by
  rw [Item.encode, ← List.append_nil (head 0 n)]
  exact present_of_header (Reader.reads_header_unsigned hn) (by simp) (by simp)

theorem present_array {items : List Item} (hn : items.length < UInt64.size) :
    Present (Item.array items).encode := by
  rw [Item.encode]
  exact present_of_header (Reader.reads_header_array hn) (by simp) (by simp)

theorem readsAt_none (d : Decoder α) : ReadsAt d.optional 0 Item.null.encode none :=
  fun _ _ _ => rfl

theorem ReadsAt.some (h : ReadsAt d depth bytes a) (hp : Present bytes) :
    ReadsAt d.optional depth bytes (some a) := by
  intro budget hb rest
  obtain ⟨hd, left, hh, h22, h23⟩ := hp rest
  unfold optional
  rw [hh]
  split
  · cases ‹Except.ok _ = Except.error _›
  · cases ‹Except.ok _ = Except.ok _›; exact absurd rfl h22
  · cases ‹Except.ok _ = Except.ok _›; exact absurd rfl h23
  · exact (h budget hb).map rest

/-- An optional value is read back if the value is. -/
theorem readsAt_optional {item : α → Item} (d : Decoder α) (o : Option α)
    (h : ∀ a, o = Option.some a → ReadsAt d depth (item a).encode a ∧ Present (item a).encode) :
    ReadsAt d.optional depth (Item.optional item o).encode o := by
  cases o with
  | none => exact (readsAt_none d).mono (by omega)
  | some a => exact (h a rfl).1.some (h a rfl).2

/-! ### Sequences -/

theorem encodeAll_map (write : α → Item) : ∀ l : List α,
    Item.encodeAll (l.map write) = l.flatMap fun a => (write a).encode
  | [] => by simp [Item.encodeAll]
  | a :: l => by simp [Item.encodeAll, encodeAll_map write l]

/-- Values read one after the other pile up in reverse. -/
theorem runs_push {write : α → Item} {budget : Nat} (hd : depth ≤ budget) :
    ∀ (l read : List α), (∀ a ∈ l, ReadsAt d depth (write a).encode a) →
      Reader.Runs (push d budget) (fun a => (write a).encode) read l (l.reverse ++ read)
  | [], read, _ => .nil read
  | a :: l, read, h => by
    rw [List.reverse_cons, List.append_assoc, List.singleton_append]
    exact .cons (h a (by simp) budget hd).map
      (runs_push hd l (a :: read) fun b hb => h b (by simp [hb]))

theorem reads_pushes {write : α → Item} {l : List α} {budget : Nat} (hd : depth ≤ budget)
    (h : ∀ a ∈ l, ReadsAt d depth (write a).encode a) :
    (do return (← Reader.repeats (push d budget) l.length []).reverse : Reader (List α)).Reads
      (Item.encodeAll (l.map write)) l := by
  have hall := (runs_push hd l [] h).reads.map (f := List.reverse)
  rw [encodeAll_map]
  simpa using hall

theorem readsAt_octets {content : Bytes} (hn : content.length < UInt64.size) :
    ReadsAt octets 1 (Item.octets content).encode content := by
  intro budget hb
  rw [Item.octets, Item.encode, List.length_map]
  refine ((Reader.reads_header_array hn).past (Reader.head_ne_nil _ _) (by simp)).bind ?_
  exact ReadsAt.enter (d := fun b => do
      return (← Reader.items (push uint8 b) (some content.length) []).reverse)
    (fun b _ => reads_pushes (by omega) fun a _ => readsAt_uint8 a) budget hb

theorem readsAt_octetsUpTo {n : Nat} {content : Bytes} (hn : content.length < UInt64.size)
    (hc : content.length = n) : ReadsAt (octetsUpTo n) 1 (Item.octets content).encode content := by
  intro budget hb
  rw [Item.octets, Item.encode, List.length_map]
  refine ((Reader.reads_header_array hn).past (Reader.head_ne_nil _ _) (by simp)).bind ?_
  refine ReadsAt.enter (d := fun b => do
      return (← itemsUpTo (push uint8 b) n (some content.length) []).reverse)
        (fun b _ => ?_) budget hb
  show (do return (← Reader.repeats (push uint8 b) (min n content.length) []).reverse :
    Reader Bytes).Reads _ content
  rw [← hc, Nat.min_self]
  exact reads_pushes (by omega) fun a _ => readsAt_uint8 a

theorem Present.octets {content : Bytes} (hn : content.length < UInt64.size) :
    Present (Item.octets content).encode := present_array (by simpa using hn)

theorem readsAt_key (k : Key) : ReadsAt key 1 (Item.octets k.bytes).encode k :=
  (readsAt_octetsUpTo (by rw [k.length_bytes]; decide) k.length_bytes).filterMap
    (Key.ofBytes?_bytes k)

theorem readsAt_publicKey (k : PublicKey) : ReadsAt publicKey 1 (Item.octets k.bytes).encode k :=
  (readsAt_key k.key).map (f := PublicKey.mk)

theorem readsAt_secretKey (k : SecretKey) :
    ReadsAt secretKey 1 (Item.octets k.key.bytes).encode k :=
  (readsAt_key k.key).map (f := SecretKey.mk)

theorem readsAt_listOf {write : α → Item} {l : List α} (hn : l.length < UInt64.size)
    (h : ∀ a ∈ l, ReadsAt d depth (write a).encode a) :
    ReadsAt d.listOf (depth + 1) (Item.array (l.map write)).encode l := by
  intro budget hb
  rw [Item.encode, List.length_map]
  refine ((Reader.reads_header_array hn).past (Reader.head_ne_nil _ _) (by simp)).bind ?_
  exact ReadsAt.enter (d := fun b => do
      return (← Reader.items (push d b) (some l.length) []).reverse)
    (fun b hd => reads_pushes hd h) budget hb

end Decoder

end SecureSession.Cbor
