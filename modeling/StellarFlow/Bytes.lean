import StellarFlow.Foundation.HashTree

/-!
# Byte strings and the hash of two nodes

The hash function of the host is a parameter: an arbitrary function on byte strings.
-/
namespace StellarFlow

open Foundation

abbrev ByteString := List UInt8
abbrev Bytes32 := Vector UInt8 32

/-- The 64 bytes that two nodes are hashed from. -/
def pairBytes (p : Bytes32 × Bytes32) : ByteString := p.1.toList ++ p.2.toList

def hashPair (sha256 : ByteString → Bytes32) (left right : Bytes32) : Bytes32 :=
  sha256 (pairBytes (left, right))

theorem pairBytes_injective : Function.Injective pairBytes := by
  intro p q h
  obtain ⟨hl, hr⟩ := List.append_inj h (by simp)
  exact Prod.ext (Vector.toList_inj.mp hl) (Vector.toList_inj.mp hr)

/-- Where the hash function has no collision, neither has the hash of two nodes. -/
theorem injOn_hashPair {sha256 : ByteString → Bytes32} {S : Set (Bytes32 × Bytes32)}
    (h : Set.InjOn sha256 (Set.image pairBytes S)) :
    Set.InjOn (Function.uncurry (hashPair sha256)) S :=
  fun _ hp _ hq heq => pairBytes_injective
    (h (Set.mem_image_of_mem _ hp) (Set.mem_image_of_mem _ hq) heq)

/-- A node with a level and a mark, for samples. -/
def sampleNode (level mark : UInt8) : Bytes32 :=
  Vector.ofFn fun i => if i.1 = 0 then level else if i.1 = 1 then mark else 0

/-- A hash function that raises the level and passes the mark of the left node on. Everything
that is not a pair of nodes hashes to an empty leaf. -/
def sampleHash (bytes : ByteString) : Bytes32 :=
  if bytes.length = 64 then sampleNode (bytes.getD 0 0 + 1) (bytes.getD 1 0) else sampleNode 0 0

theorem sampleNode_inj {l l' a a' : UInt8} (h : sampleNode l a = sampleNode l' a') :
    l = l' ∧ a = a' := by
  have hget : ∀ i : Fin 32, (sampleNode l a)[i] = (sampleNode l' a')[i] := fun i => by rw [h]
  exact ⟨by simpa [sampleNode] using hget 0, by simpa [sampleNode] using hget 1⟩

@[simp] theorem hashPair_sampleHash (l a : UInt8) (right : Bytes32) :
    hashPair sampleHash (sampleNode l a) right = sampleNode (l + 1) a := by
  have hlevel : (pairBytes (sampleNode l a, right)).getD 0 0 = l := by
    rw [pairBytes, List.getD_append _ _ _ _ (by simp)]
    simp [sampleNode, List.getD_eq_getElem?_getD]
  have hmark : (pairBytes (sampleNode l a, right)).getD 1 0 = a := by
    rw [pairBytes, List.getD_append _ _ _ _ (by simp)]
    simp [sampleNode, List.getD_eq_getElem?_getD]
  rw [hashPair, sampleHash, if_pos (by simp [pairBytes]), hlevel, hmark]

/-- The sample hash has no collision on pairs of nodes of one level whose right mark is zero. -/
theorem injOn_sampleHash {S : Set (Bytes32 × Bytes32)}
    (hS : ∀ p ∈ S, ∃ l a, p = (sampleNode l a, sampleNode l 0)) :
    Set.InjOn sampleHash (Set.image pairBytes S) := by
  rintro _ ⟨p, hp, rfl⟩ _ ⟨q, hq, rfl⟩ heq
  obtain ⟨l, a, rfl⟩ := hS p hp
  obtain ⟨l', a', rfl⟩ := hS q hq
  have hnode : sampleNode (l + 1) a = sampleNode (l' + 1) a' := by
    rw [← hashPair_sampleHash l a (sampleNode l 0), ← hashPair_sampleHash l' a' (sampleNode l' 0)]
    exact heq
  obtain ⟨hl, rfl⟩ := sampleNode_inj hnode
  rw [(UInt8.add_left_inj 1).mp hl]

end StellarFlow
