import StellarFlow.Archive.Bits
import StellarFlow.Bridge.Relayer
import StellarFlow.Foundation.PromotedTree

/-!
# The hash tree over the votes of a proposal

A leaf is the hash of one vote, a node the hash of two others; the first byte keeps the kinds
apart. The verifier is given the root and the number of leaves. Without collisions it accepts
exactly the leaves of the tree, each along its siblings.
-/
namespace StellarFlow.Archive

open Foundation PromotedTree
open Orders (toBeBytes)

/-- The encoding of addresses and the hash function of the host. -/
structure ArchiveCrypto where
  xdr : Address → ByteString
  sha256 : ByteString → Bytes32

def leafDomain : UInt8 := 0
def nodeDomain : UInt8 := 1
def emptyDomain : UInt8 := 2

variable (crypto : ArchiveCrypto)

def emptyRoot : Bytes32 := crypto.sha256 [emptyDomain]

/-- The bytes that a leaf is the hash of. -/
def leafPreimage (proposalId : UInt64) (voterIndex : ℕ) (option : Bool) (weight : ℕ)
    (voter : Address) : ByteString :=
  let voterXdr := crypto.xdr voter
  [leafDomain] ++ toBeBytes 8 proposalId.toNat ++ toBeBytes 4 voterIndex ++
    [if option then 1 else 0] ++ toBeBytes 4 weight ++ toBeBytes 4 voterXdr.length ++ voterXdr

def leafHash (proposalId : UInt64) (voterIndex : ℕ) (option : Bool) (weight : ℕ)
    (voter : Address) : Bytes32 :=
  crypto.sha256 (leafPreimage crypto proposalId voterIndex option weight voter)

/-- The bytes that a node is the hash of. -/
def nodePreimage (p : Bytes32 × Bytes32) : ByteString := nodeDomain :: pairBytes p

def nodeHash (left right : Bytes32) : Bytes32 := crypto.sha256 (nodePreimage (left, right))

def merkleRoot (leaves : List Bytes32) : Bytes32 :=
  (rootFuel (nodeHash crypto) leaves.length leaves).getD (emptyRoot crypto)

def merkleProof (leaves : List Bytes32) (index : ℕ) : List Bytes32 :=
  if leaves.length ≤ index then [] else siblingsFuel (nodeHash crypto) leaves.length leaves index

def verifyProof (root leaf : Bytes32) (index treeSize : ℕ) (proof : List Bytes32) : Bool :=
  if treeSize = 0 ∨ treeSize ≤ index then root == emptyRoot crypto
  else
    match climbFuel (nodeHash crypto) treeSize treeSize index leaf proof with
    | none => false
    | some (hash, rest) => rest.isEmpty && hash == root

/-- The byte strings hashed for a tree over leaves, for one more leaf and on its path, and the
one hashed for the empty tree. -/
def hashedStrings (preimages : List ByteString) (preimage : ByteString) (index : ℕ)
    (proof : List Bytes32) : List ByteString :=
  let leaves := preimages.map crypto.sha256
  [emptyDomain] :: preimage :: preimages ++
    (treePairs (nodeHash crypto) leaves.length leaves ++
      climbPairs (nodeHash crypto) leaves.length leaves.length index (crypto.sha256 preimage)
        proof).map nodePreimage

section Merkle

variable {crypto} {preimages : List ByteString} {preimage : ByteString} {index : ℕ}
  {proof : List Bytes32}

theorem nodePreimage_injective : Function.Injective nodePreimage :=
  fun _ _ h => pairBytes_injective (List.cons.inj h).2

/-- A leaf determines its vote. -/
theorem leafPreimage_inj (hxdr : Function.Injective crypto.xdr) {id id' : UInt64}
    {voterIndex voterIndex' weight weight' : ℕ} {option option' : Bool} {voter voter' : Address}
    (hindex : voterIndex < 2 ^ 32) (hindex' : voterIndex' < 2 ^ 32) (hweight : weight < 2 ^ 32)
    (hweight' : weight' < 2 ^ 32)
    (h : leafPreimage crypto id voterIndex option weight voter =
      leafPreimage crypto id' voterIndex' option' weight' voter') :
    id = id' ∧ voterIndex = voterIndex' ∧ option = option' ∧ weight = weight' ∧
      voter = voter' := by
  simp only [leafPreimage, List.append_assoc] at h
  obtain ⟨-, h⟩ := List.append_inj h (by simp)
  obtain ⟨hid, h⟩ := List.append_inj h (by simp)
  obtain ⟨hindexBytes, h⟩ := List.append_inj h (by simp)
  obtain ⟨hoption, h⟩ := List.append_inj h (by simp)
  obtain ⟨hweightBytes, h⟩ := List.append_inj h (by simp)
  obtain ⟨-, hvoter⟩ := List.append_inj h (by simp)
  have hindexMod := Orders.toBeBytes_inj hindexBytes
  have hweightMod := Orders.toBeBytes_inj hweightBytes
  norm_num at hindexMod hweightMod
  refine ⟨Bridge.uint64_inj hid, by omega, ?_, by omega, hxdr hvoter⟩
  cases option <;> cases option' <;> simp_all

/-- Where the hash function has no collision, neither have pairs of nodes. -/
theorem injOn_nodeHash {S : Set ByteString} (hsha : Set.InjOn crypto.sha256 S) :
    Set.InjOn (Function.uncurry (nodeHash crypto)) {p | nodePreimage p ∈ S} :=
  fun _ hp _ hq heq => nodePreimage_injective (hsha hp hq heq)

@[simp] theorem leafPreimage_head? (id : UInt64) (voterIndex : ℕ) (option : Bool) (weight : ℕ)
    (voter : Address) :
    (leafPreimage crypto id voterIndex option weight voter).head? = some leafDomain := rfl

theorem nodePreimage_mem_hashedStrings {p : Bytes32 × Bytes32}
    (h : p ∈ treePairs (nodeHash crypto) (preimages.map crypto.sha256).length
        (preimages.map crypto.sha256) ∨
      p ∈ climbPairs (nodeHash crypto) (preimages.map crypto.sha256).length
        (preimages.map crypto.sha256).length index (crypto.sha256 preimage) proof) :
    nodePreimage p ∈ hashedStrings crypto preimages preimage index proof := by
  simp only [hashedStrings, List.mem_append, List.mem_map]
  exact .inr ⟨p, h, rfl⟩

/-- The root of a tree with leaves is not the root of the empty tree. -/
theorem merkleRoot_ne_emptyRoot (hne : preimages ≠ [])
    (hleaf : ∀ bytes ∈ preimages, bytes.head? = some leafDomain)
    (hsha : Set.InjOn crypto.sha256 {x | x ∈ hashedStrings crypto preimages preimage index proof}) :
    merkleRoot crypto (preimages.map crypto.sha256) ≠ emptyRoot crypto := by
  obtain ⟨r, hr⟩ := exists_rootFuel (nodeHash crypto) (preimages.map crypto.sha256).length
    (mt List.map_eq_nil_iff.mp hne)
  rw [merkleRoot, hr, Option.getD_some]
  intro heq
  obtain hmem | ⟨p, hp, rfl⟩ := rootFuel_cases hr
  · obtain ⟨bytes, hbytes, rfl⟩ := List.mem_map.mp hmem
    have hempty := hsha (by simp [hashedStrings, hbytes]) (by simp [hashedStrings]) heq
    have hhead := hleaf bytes hbytes
    rw [hempty] at hhead
    simp [emptyDomain, leafDomain] at hhead
  · have hempty := hsha (nodePreimage_mem_hashedStrings (.inl hp)) (by simp [hashedStrings]) heq
    have hhead := (List.cons.inj hempty).1
    simp [nodeDomain, emptyDomain] at hhead

/-- Without collisions exactly the leaves of the tree are accepted, each along its siblings. -/
theorem verifyProof_iff (hne : preimages ≠ [])
    (hleaf : ∀ bytes ∈ preimages, bytes.head? = some leafDomain)
    (hsha : Set.InjOn crypto.sha256 {x | x ∈ hashedStrings crypto preimages preimage index proof}) :
    verifyProof crypto (merkleRoot crypto (preimages.map crypto.sha256)) (crypto.sha256 preimage)
        index preimages.length proof = true ↔
      preimages[index]? = some preimage ∧
        proof = merkleProof crypto (preimages.map crypto.sha256) index := by
  have hlength : (preimages.map crypto.sha256).length = preimages.length := List.length_map _
  rw [verifyProof]
  split_ifs with hout
  · have hindex : preimages.length ≤ index := by
      have := List.length_pos_of_ne_nil hne
      omega
    rw [List.getElem?_eq_none hindex, beq_iff_eq]
    simpa using merkleRoot_ne_emptyRoot hne hleaf hsha
  · obtain ⟨r, hr⟩ := exists_rootFuel (nodeHash crypto) (preimages.map crypto.sha256).length
      (mt List.map_eq_nil_iff.mp hne)
    have hclimb := climbFuel_eq_root_iff (injOn_nodeHash hsha) _ (i := index)
      (x := crypto.sha256 preimage) (Nat.le_succ _) (by omega) hr
      (fun p hp => nodePreimage_mem_hashedStrings (.inl hp))
      (fun p hp => nodePreimage_mem_hashedStrings (.inr hp))
    have hnode : (preimages.map crypto.sha256)[index]? = some (crypto.sha256 preimage) ↔
        preimages[index]? = some preimage := by
      rw [List.getElem?_map, Option.map_eq_some_iff]
      constructor
      · rintro ⟨bytes, hbytes, heq⟩
        rw [hbytes, hsha (by simp [hashedStrings, List.mem_of_getElem? hbytes])
          (by simp [hashedStrings]) heq]
      · exact fun h => ⟨preimage, h, rfl⟩
    rw [hnode, hlength] at hclimb
    rw [merkleProof, if_neg (by omega), merkleRoot, hr, Option.getD_some, hlength, ← hclimb]
    cases climbFuel (nodeHash crypto) preimages.length preimages.length index
        (crypto.sha256 preimage) proof with
    | none => simp
    | some reached =>
      obtain ⟨hash, rest⟩ := reached
      simp [and_comm]

end Merkle

/-- A hash that keeps the first 32 bytes, for samples. -/
def sampleCrypto : ArchiveCrypto :=
  ⟨fun a => List.replicate a.raw 0, fun bytes => Vector.ofFn fun i => bytes.getD i.1 0⟩

theorem sampleCrypto_xdr : Function.Injective sampleCrypto.xdr := by
  intro a b h
  have hlength := congrArg List.length h
  simp only [sampleCrypto, List.length_replicate] at hlength
  cases a
  cases b
  exact congrArg Address.mk hlength

end StellarFlow.Archive
