import ShardStream.Engine.Types
import ShardStream.Library.Files

/-!
# Offloading sealed packs to the object tier

A tier keeps copies of sealed packs as immutable objects and lists them in a manifest. Every new
manifest is a new file, numbered by its generation, and `CURRENT` names the generation in force.
`offloadPack` copies the pack (unless a copy is there), writes the next manifest and replaces
`CURRENT`; opening a tier reads `CURRENT`, the manifest it names and every object in it.

The functions are programs on files, and each has one lemma that says when it succeeds and with what
effects. `offloadPack_eq_ok_iff` puts them together.

Paths are those of one shard. The names that the tier gives to its objects start with `objects/` and
all others with `manifests/`, so that objects, manifests, `CURRENT` and temporary files never share
a path. Locks, directories and the synchronisation of files are left out; the source pack is its
contents.
-/

namespace ShardStream

open Files

variable {tier : LocalObjectTier} {source : Bytes} {destination path : TierPath} {u : Unit}
  {shardId : UInt32} {expectedGeneration : UInt64} {fs' : Directory TierPath}
  {effects : List (Files.Effect TierPath)} {digest : UInt64 × String} {object : TierObject}
  {manifest : TierManifest}

/-! ### Manifests -/

/-- `MANIFEST_VERSION`. -/
def manifestVersion : UInt8 := 3

/-- `CHECKSUM_BLAKE3`. -/
def checksumBlake3 : String := "blake3"

/-- `MAX_MANIFEST_BYTES`. -/
def maxManifestBytes : Nat := 64 * 1024 * 1024

/-- `TierExtent`. -/
structure TierExtent where
  topicId : String
  partitionId : UInt32
  firstOffset : UInt64
  lastOffset : UInt64
  virtualLaneId : UInt32
  ringEpoch : UInt64
  leaderEpoch : UInt64
  deriving DecidableEq

/-- `TierObject`. -/
structure TierObject where
  packSequence : UInt64
  objectKey : String
  bytes : UInt64
  checksumAlgorithm : String
  checksum : String
  createdUnixMs : UInt64
  extents : List TierExtent
  deriving DecidableEq

/-- `TierManifest`. -/
structure TierManifest where
  formatVersion : UInt8
  generation : UInt64
  shardId : UInt32
  objects : List TierObject
  deriving DecidableEq

/-- `TierManifest::empty`. -/
def TierManifest.empty (shardId : UInt32) : TierManifest :=
  ⟨manifestVersion, 0, shardId, []⟩

/-- The files of one shard's tier. -/
inductive TierPath where
  | object (key : String)
  /-- `manifest_path`. -/
  | manifest (generation : UInt64)
  /-- `current_path`. -/
  | current
  /-- `temporary_path`: the name is made of the file's own, the process id and a counter. -/
  | temporary (path : TierPath) (pid : UInt32) (sequence : UInt64)
  deriving DecidableEq

/-- `StorageError`, with the variants that the tier returns; a corruption that names no file is one
of `tier-manifest`. -/
inductive TierError where
  | io (message : String)
  | invalidInput (message : String)
  | limitExceeded (message : String)
  | corrupt (path : Option TierPath) (reason : String)
  deriving DecidableEq

/-- `tier_corrupt`. -/
def tierCorrupt (reason : String) : TierError := .corrupt none reason

/-- What the tier takes from its libraries: JSON, numbers, paths and the digest. -/
structure TierCodec where
  /-- `serde_json::to_vec` of a manifest. -/
  encode : TierManifest → Bytes
  /-- `decode_recovery_tier_manifest`, that is `serde_json::from_slice`. -/
  decode : Bytes → Except String TierManifest
  decode_encode : ∀ manifest, decode (encode manifest) = .ok manifest
  /-- The text of a JSON object does not go on to be the text of another. -/
  encode_inj_of_front : ∀ manifest manifest', encode manifest <+: encode manifest' →
    manifest = manifest'
  /-- What `writeln!` writes for a generation. -/
  render : UInt64 → Bytes
  /-- `read_to_string` and `parse_recovery_tier_current`. -/
  parse : Bytes → Option UInt64
  parse_render : ∀ generation, parse (render generation) = some generation
  /-- The hexadecimal digest of a file. -/
  blake3 : Bytes → String
  /-- A path that is not empty and whose components are all normal ones. -/
  safeKey : String → Bool
  /-- `parse::<u128>` accepts the text. -/
  isU128 : String → Bool

variable (codec : TierCodec)

/-- `validate_object_key`. -/
def validateObjectKey (key : String) : Except TierError Unit :=
  if codec.safeKey key then .ok ()
  else .error (tierCorrupt "tier manifest contains an unsafe object key")

/-- The loop of `TierManifest::validate`, after an object with the sequence `previous`. -/
def validateObjects : Option UInt64 → List TierObject → Except TierError Unit
  | _, [] => .ok ()
  | previous, object :: objects => do
    validateObjectKey codec object.objectKey
    if object.bytes = 0 ∨ object.checksum.utf8ByteSize ≠ 64 ∨
        object.checksumAlgorithm ≠ checksumBlake3 ∨ object.extents = [] then
      .error (tierCorrupt "tier manifest contains invalid object metadata")
    else if ∃ extent ∈ object.extents,
        codec.isU128 extent.topicId = false ∨ extent.lastOffset < extent.firstOffset then
      .error (tierCorrupt "tier manifest contains invalid extent coverage")
    else if previous.any (object.packSequence ≤ ·) then
      .error (tierCorrupt "tier manifest pack sequences are not strictly increasing")
    else validateObjects (some object.packSequence) objects

/-- `TierManifest::validate`. -/
def TierManifest.validate (manifest : TierManifest) (shardId : UInt32) : Except TierError Unit :=
  if manifest.formatVersion ≠ manifestVersion then
    .error (tierCorrupt ("unsupported tier manifest version " ++ toString manifest.formatVersion))
  else if manifest.shardId ≠ shardId then
    .error (tierCorrupt ("tier manifest belongs to shard " ++ toString manifest.shardId ++
      ", expected " ++ toString shardId))
  else validateObjects codec none manifest.objects

/-! ### Reading a tier -/

/-- What a missing file is reported as. -/
def notFound : TierError := .io "No such file or directory (os error 2)"

/-- What a file in the way is reported as. -/
def alreadyExists : TierError := .io "File exists (os error 17)"

/-- The length and the digest of a file's contents, as `hash_file` counts them. -/
def digestOf (contents : Bytes) : Except TierError (UInt64 × String) :=
  if contents.length < 2 ^ 64 then .ok (UInt64.ofNat contents.length, codec.blake3 contents)
  else .error (.limitExceeded "object size overflow")

/-- `hash_file`. -/
def hashFile (fs : Directory TierPath) (path : TierPath) : Except TierError (UInt64 × String) :=
  match fs.get path with
  | none => .error notFound
  | some contents => digestOf codec contents

/-- `object_path`. -/
def objectPath (key : String) : Except TierError TierPath :=
  (validateObjectKey codec key).map fun _ ↦ .object key

/-- `verify_object`. -/
def verifyObject (fs : Directory TierPath) (object : TierObject) : Except TierError Unit := do
  let path ← objectPath codec object.objectKey
  let digest ← hashFile codec fs path
  if digest.1 ≠ object.bytes ∨ digest.2 ≠ object.checksum then
    .error (.corrupt (some path) "tier object length or checksum mismatch")
  else .ok ()

/-- `load_current_manifest`. -/
def loadCurrentManifest (shardId : UInt32) (fs : Directory TierPath) :
    Except TierError TierManifest :=
  match fs.get .current with
  | none => .ok (.empty shardId)
  | some text =>
    match codec.parse text with
    | none => .error (tierCorrupt "invalid tier CURRENT generation")
    | some generation =>
      match fs.get (.manifest generation) with
      | none => .error notFound
      | some bytes =>
        if maxManifestBytes < bytes.length then
          .error (.limitExceeded "tier manifest exceeds the read limit")
        else
          match codec.decode bytes with
          | .error e => .error (tierCorrupt ("invalid tier manifest: " ++ e))
          | .ok manifest =>
            if manifest.generation ≠ generation then
              .error (tierCorrupt "tier CURRENT and manifest generation disagree")
            else .ok manifest

/-- `LocalObjectTier`. -/
structure LocalObjectTier where
  shardId : UInt32
  manifest : TierManifest
  deriving DecidableEq

/-- `LocalObjectTier::open`. -/
def openTier (shardId : UInt32) (fs : Directory TierPath) : Except TierError LocalObjectTier := do
  let manifest ← loadCurrentManifest codec shardId fs
  manifest.validate codec shardId
  manifest.objects.forM (verifyObject codec fs)
  pure ⟨shardId, manifest⟩

/-! ### Offloading a pack -/

/-- What a call takes from its process: the process id, the numbers that the global counter of
temporary names gives for the object and for `CURRENT`, and the clock. -/
structure TierEnv where
  pid : UInt32
  objectSequence : UInt64
  currentSequence : UInt64
  now : UInt64

variable (env : TierEnv)

/-- `copy_object_atomically`. -/
def copyObjectAtomically (source : Bytes) (destination : TierPath) :
    Op TierPath TierError (UInt64 × String) := fun fs ↦
  if (fs.get destination).isSome then
    Op.inspect (fun fs ↦ do
      let sourceDigest ← digestOf codec source
      let destinationDigest ← hashFile codec fs destination
      if sourceDigest ≠ destinationDigest then
        .error
          (.corrupt (some destination) "immutable object already exists with different content")
      else .ok destinationDigest) fs
  else
    let temporary := TierPath.temporary destination env.pid env.objectSequence
    Op.orElse (do
      Op.createNew alreadyExists temporary
      Op.perform [.write temporary source]
      let digest ← Op.inspect fun _ ↦ digestOf codec source
      Op.perform [.rename temporary destination]
      pure digest) (.remove temporary) fs

/-- The first part of `publish_manifest`: the manifest follows the one in force and can be
written. -/
def checkPublication (shardId : UInt32) (expectedGeneration : UInt64) (manifest : TierManifest)
    (fs : Directory TierPath) : Except TierError Unit := do
  manifest.validate codec shardId
  let observed ← loadCurrentManifest codec shardId fs
  -- `saturating_add`: no generation follows the last one
  if observed.generation ≠ expectedGeneration ∨
      manifest.generation.toNat ≠ min (expectedGeneration.toNat + 1) (2 ^ 64 - 1) then
    .error (.invalidInput ("conditional manifest update failed: expected generation " ++
      toString expectedGeneration ++ ", observed " ++ toString observed.generation))
  else if maxManifestBytes < (codec.encode manifest).length then
    .error (.limitExceeded "tier manifest exceeds the write limit")
  else .ok ()

/-- The second part: the manifest becomes a file, unless it is one. -/
def writeManifest (manifest : TierManifest) : Op TierPath TierError Unit := fun fs ↦
  let path := TierPath.manifest manifest.generation
  match fs.get path with
  | none => (.ok (), writeNew path (codec.encode manifest))
  | some bytes =>
    (if bytes ≠ codec.encode manifest then
        .error (.corrupt (some path) "immutable manifest generation has different content")
      else .ok (), [])

/-- `publish_manifest`. -/
def publishManifest (shardId : UInt32) (expectedGeneration : UInt64) (manifest : TierManifest) :
    Op TierPath TierError Unit := do
  let temporary := TierPath.temporary .current env.pid env.currentSequence
  Op.inspect (checkPublication codec shardId expectedGeneration manifest)
  writeManifest codec manifest
  Op.createNew alreadyExists temporary
  Op.perform [.write temporary (codec.render manifest.generation), .rename temporary .current]

/-- A number with twenty digits at least. -/
def twentyDigits (n : UInt64) : String :=
  String.ofList (List.replicate (20 - (toString n).length) '0') ++ toString n

/-- The key that `offload_pack` gives to the copy of a pack. -/
def objectKeyOf (shardId : UInt32) (packSequence : UInt64) : String :=
  "objects/shard-" ++ toString shardId ++ "/pack-" ++ twentyDigits packSequence ++ ".sse"

/-- A pack that the manifest lists: its contents and its extents must be the listed ones. -/
def LocalObjectTier.confirm (existing : TierObject) (packSequence : UInt64) (source : Bytes)
    (extents : List TierExtent) (fs : Directory TierPath) : Except TierError Unit := do
  let observed ← digestOf codec source
  if existing.bytes ≠ observed.1 ∨ existing.checksum ≠ observed.2 then
    .error (tierCorrupt ("sealed pack " ++ toString packSequence ++
      " differs from its authoritative tier manifest"))
  else do
    verifyObject codec fs existing
    if existing.extents ≠ extents then
      .error (tierCorrupt ("sealed pack " ++ toString packSequence ++
        " has different extent coverage"))
    else .ok ()

/-- The manifest of the next generation, with one more object. -/
def TierManifest.next (manifest : TierManifest) (object : TierObject) : TierManifest :=
  { manifest with
    generation := manifest.generation + 1
    objects := manifest.objects ++ [object] }

/-- The manifest of the next generation, if there is one. -/
def TierManifest.push (manifest : TierManifest) (object : TierObject) :
    Except TierError TierManifest :=
  if manifest.generation.toNat + 1 < 2 ^ 64 then .ok (manifest.next object)
  else .error (.limitExceeded "tier manifest generation exhausted")

/-- The object that `offload_pack` lists. -/
def offloadedObject (shardId : UInt32) (packSequence : UInt64) (digest : UInt64 × String)
    (now : UInt64) (extents : List TierExtent) : TierObject :=
  ⟨packSequence, objectKeyOf shardId packSequence, digest.1, checksumBlake3, digest.2, now, extents⟩

/-- `offload_pack`: the listed object, and the tier with the manifest that lists it. -/
def LocalObjectTier.offloadPack (tier : LocalObjectTier) (packSequence : UInt64) (source : Bytes)
    (extents : List TierExtent) : Op TierPath TierError (TierObject × LocalObjectTier) :=
  if extents = [] then
    Op.inspect fun _ ↦ .error (.invalidInput "object manifest coverage cannot be empty")
  else
    match tier.manifest.objects.find? (·.packSequence = packSequence) with
    | some existing => Op.inspect fun fs ↦
        (confirm codec existing packSequence source extents fs).map fun _ ↦ (existing, tier)
    | none =>
      if tier.manifest.objects.getLast?.any (packSequence ≤ ·.packSequence) then
        Op.inspect fun _ ↦
          .error (.invalidInput "tier packs must be published in increasing sequence order")
      else if source = [] then
        Op.inspect fun _ ↦
          .error (.invalidInput "only nonempty sealed pack files can be offloaded")
      else do
        let destination ← Op.inspect fun _ ↦
          objectPath codec (objectKeyOf tier.shardId packSequence)
        let digest ← copyObjectAtomically codec env source destination
        let object := offloadedObject tier.shardId packSequence digest env.now extents
        Op.inspect fun fs ↦ verifyObject codec fs object
        let next ← Op.inspect fun _ ↦ tier.manifest.push object
        publishManifest codec env tier.shardId tier.manifest.generation next
        pure (object, { tier with manifest := next })

/-! ### What the functions do when they succeed -/

section Specs

variable {codec env} {fs : Directory TierPath} {key : String}

theorem validateObjectKey_eq_ok_iff :
    validateObjectKey codec key = .ok u ↔ codec.safeKey key = true := by
  unfold validateObjectKey
  split <;> simp_all

theorem objectPath_eq_ok_iff :
    objectPath codec key = .ok path ↔ codec.safeKey key = true ∧ .object key = path := by
  simp only [objectPath, map_eq_ok_iff, validateObjectKey_eq_ok_iff, exists_const]

theorem hashFile_eq_ok_iff :
    hashFile codec fs path = .ok digest ↔
      ∃ contents, fs.get path = some contents ∧ digestOf codec contents = .ok digest := by
  unfold hashFile
  cases fs.get path <;> simp

/-- An object is verified when its file has the recorded length and digest. -/
theorem verifyObject_eq_ok_iff :
    verifyObject codec fs object = .ok u ↔ codec.safeKey object.objectKey = true ∧
      hashFile codec fs (.object object.objectKey) = .ok (object.bytes, object.checksum) := by
  simp only [verifyObject, bind_eq_ok_iff, objectPath_eq_ok_iff, ite_error_eq_ok_iff, not_or,
    not_not,
    and_true, and_assoc, exists_and_left, exists_eq_left', Prod.exists, exists_eq_right_right,
    exists_eq_right]

/-- A tier is empty, or its manifest is the one that `CURRENT` names. -/
theorem loadCurrentManifest_eq_ok_iff :
    loadCurrentManifest codec shardId fs = .ok manifest ↔
      (fs.get .current = none ∧ manifest = .empty shardId) ∨
      ∃ text bytes, fs.get .current = some text ∧ codec.parse text = some manifest.generation ∧
        fs.get (.manifest manifest.generation) = some bytes ∧ bytes.length ≤ maxManifestBytes ∧
        codec.decode bytes = .ok manifest := by
  unfold loadCurrentManifest
  split
  next hcurrent => simp [hcurrent, eq_comm]
  next text hcurrent =>
    simp only [hcurrent, reduceCtorEq, false_and, false_or, Option.some.injEq, exists_and_left,
      exists_eq_left']
    split
    next hparse => simp [hparse]
    next generation hparse =>
      rw [hparse, Option.some.injEq]
      constructor
      · intro h
        split at h
        · cases h
        next bytes hbytes =>
          obtain ⟨hlimit, h⟩ := ite_error_eq_ok_iff.1 h
          split at h
          · cases h
          next decoded hdecode =>
            obtain ⟨hgeneration, ⟨⟩⟩ := ite_error_eq_ok_iff.1 h
            obtain rfl := not_not.1 hgeneration
            exact ⟨rfl, bytes, hbytes, by omega, hdecode⟩
      · rintro ⟨rfl, bytes, hbytes, hlimit, hdecode⟩
        simp [hbytes, Nat.not_lt.2 hlimit, hdecode]

theorem openTier_eq_ok_iff : openTier codec shardId fs = .ok tier ↔ tier.shardId = shardId ∧
      loadCurrentManifest codec shardId fs = .ok tier.manifest ∧
      tier.manifest.validate codec shardId = .ok () ∧
      ∀ object ∈ tier.manifest.objects, verifyObject codec fs object = .ok () := by
  have hforM (objects : List TierObject) {u : Unit} :
      objects.forM (verifyObject codec fs) = .ok u ↔
        ∀ object ∈ objects, verifyObject codec fs object = .ok () := by
    induction objects with
    | nil => simp [pure, Except.pure]
    | cons object objects ih =>
      simp only [List.forM_eq_forM, List.forM_cons, bind_eq_ok_iff, List.forall_mem_cons] at ih ⊢
      constructor
      · rintro ⟨⟨⟩, hobject, hobjects⟩
        exact ⟨hobject, ih.1 hobjects⟩
      · rintro ⟨hobject, hobjects⟩
        exact ⟨(), hobject, ih.2 hobjects⟩
  simp only [openTier, bind_eq_ok_iff, hforM]
  constructor
  · rintro ⟨manifest, hload, ⟨⟩, hvalid, ⟨⟩, hverify, heq⟩
    cases heq
    exact ⟨rfl, hload, hvalid, hverify⟩
  · rintro ⟨rfl, hload, hvalid, hverify⟩
    exact ⟨_, hload, (), hvalid, (), hverify, rfl⟩

theorem copyObjectAtomically_eq_ok_iff :
    copyObjectAtomically codec env source destination fs = (.ok digest, effects) ↔
      digestOf codec source = .ok digest ∧
      ((hashFile codec fs destination = .ok digest ∧ effects = []) ∨
        (fs.get destination = none ∧
          fs.get (.temporary destination env.pid env.objectSequence) = none ∧
          effects = replace (.temporary destination env.pid env.objectSequence) destination
          source)) := by
  unfold copyObjectAtomically
  cases hdestination : fs.get destination with
  | none =>
    have hhash : hashFile codec fs destination ≠ .ok digest := by
      simp [hashFile_eq_ok_iff, hdestination]
    simp only [Option.isSome_none, Bool.false_eq_true, ↓reduceIte, Op.orElse_eq_ok_iff,
      Op.bind_eq_ok_iff, Op.createNew_eq_ok_iff, Op.perform_eq_ok_iff, Op.inspect_eq_ok_iff,
      Op.pure_eq_ok_iff, hhash, false_and, false_or, true_and]
    constructor
    · rintro ⟨-, _, _, ⟨hfree, rfl⟩, ⟨-, _, _, rfl, ⟨digest', _, _, ⟨hdigest, rfl⟩,
        ⟨-, _, _, rfl, ⟨rfl, rfl⟩, rfl⟩, rfl⟩, rfl⟩, rfl⟩
      exact ⟨hdigest, hfree, rfl⟩
    · rintro ⟨hdigest, hfree, rfl⟩
      exact ⟨(), _, _, ⟨hfree, rfl⟩, ⟨(), _, _, rfl, ⟨digest, _, _, ⟨hdigest, rfl⟩,
        ⟨(), _, _, rfl, ⟨rfl, rfl⟩, rfl⟩, rfl⟩, rfl⟩, rfl⟩
  | some contents =>
    simp only [Option.isSome_some, ↓reduceIte, Op.inspect_eq_ok_iff, bind_eq_ok_iff, reduceCtorEq,
      false_and, or_false, ite_error_eq_ok_iff, not_not, Except.ok.injEq]
    constructor
    · rintro ⟨⟨sourceDigest, hsource, destinationDigest, hhash, rfl, rfl⟩, rfl⟩
      exact ⟨hsource, hhash, rfl⟩
    · rintro ⟨hsource, hhash, rfl⟩
      exact ⟨⟨digest, hsource, digest, hhash, rfl, rfl⟩, rfl⟩

theorem writeManifest_eq_ok_iff :
    writeManifest codec manifest fs = (.ok u, effects) ↔
      (fs.get (.manifest manifest.generation) = none ∧
        effects = writeNew (.manifest manifest.generation) (codec.encode manifest)) ∨
      (fs.get (.manifest manifest.generation) = some (codec.encode manifest) ∧ effects = []) := by
  unfold writeManifest
  cases hbytes : fs.get (.manifest manifest.generation) with
  | none => simp [hbytes, eq_comm]
  | some bytes => by_cases heq : bytes = codec.encode manifest <;> simp [hbytes]

theorem publishManifest_eq_ok_iff :
    publishManifest codec env shardId expectedGeneration manifest fs = (.ok u, effects) ↔
      checkPublication codec shardId expectedGeneration manifest fs = .ok () ∧
      fs.get (.temporary .current env.pid env.currentSequence) = none ∧
      ∃ written, writeManifest codec manifest fs = (.ok (), written) ∧
        effects = written ++ replace (.temporary .current env.pid env.currentSequence) .current
          (codec.render manifest.generation) := by
  have hfree {written : List (Files.Effect TierPath)}
      (h : writeManifest codec manifest fs = (.ok (), written)) :
      (after fs written).get (.temporary .current env.pid env.currentSequence) =
        fs.get (.temporary .current env.pid env.currentSequence) := by
    obtain ⟨-, rfl⟩ | ⟨-, rfl⟩ := writeManifest_eq_ok_iff.1 h
    · exact get_after_of_notMem (notMem_paths_writeNew (by simp))
    · rfl
  simp only [publishManifest, Op.bind_eq_ok_iff, Op.inspect_eq_ok_iff, Op.createNew_eq_ok_iff,
    Op.perform_eq_ok_iff]
  constructor
  · rintro ⟨_, _, _, ⟨hcheck, rfl⟩, ⟨_, written, _, hwrite, ⟨_, _, _, ⟨htemporary, rfl⟩, rfl, rfl⟩,
      rfl⟩, rfl⟩
    exact ⟨hcheck, (hfree hwrite).symm.trans htemporary, written, hwrite, rfl⟩
  · rintro ⟨hcheck, htemporary, written, hwrite, rfl⟩
    exact ⟨(), _, _, ⟨hcheck, rfl⟩, ⟨(), written, _, hwrite, ⟨(), _, _,
      ⟨(hfree hwrite).trans htemporary, rfl⟩, rfl, rfl⟩, rfl⟩, rfl⟩

theorem checkPublication_eq_ok_iff :
    checkPublication codec shardId expectedGeneration manifest fs = .ok u ↔
      manifest.validate codec shardId = .ok () ∧
      (∃ observed, loadCurrentManifest codec shardId fs = .ok observed ∧
        observed.generation = expectedGeneration) ∧
      manifest.generation.toNat = min (expectedGeneration.toNat + 1) (2 ^ 64 - 1) ∧
      (codec.encode manifest).length ≤ maxManifestBytes := by
  simp only [checkPublication, bind_eq_ok_iff, ite_error_eq_ok_iff, not_or, not_not, Nat.not_lt,
    and_true]
  constructor
  · rintro ⟨⟨⟩, hvalid, observed, hload, ⟨hexpected, hgeneration⟩, hlimit⟩
    exact ⟨hvalid, ⟨observed, hload, hexpected⟩, hgeneration, hlimit⟩
  · rintro ⟨hvalid, ⟨observed, hload, hexpected⟩, hgeneration, hlimit⟩
    exact ⟨(), hvalid, observed, hload, ⟨hexpected, hgeneration⟩, hlimit⟩

theorem push_eq_ok_iff {next : TierManifest} :
    manifest.push object = .ok next ↔ manifest.generation.toNat + 1 < 2 ^ 64 ∧
      manifest.next object = next := by
  unfold TierManifest.push
  split <;> simp_all

/-- What a tier finds is decided by `CURRENT` and by the manifest that it names. -/
theorem loadCurrentManifest_of_get (h : loadCurrentManifest codec shardId fs = .ok manifest)
    (hcurrent : fs'.get .current = fs.get .current)
    (hmanifest : fs'.get (.manifest manifest.generation) = fs.get (.manifest manifest.generation)) :
    loadCurrentManifest codec shardId fs' = .ok manifest := by
  rw [loadCurrentManifest_eq_ok_iff] at h ⊢
  rwa [hcurrent, hmanifest]

end Specs

/-! ### Offloads that publish -/

section Offload

variable {codec env} {fs : Directory TierPath}

/-- A copy touches the object and its temporary file. -/
theorem notMem_paths_of_copyObjectAtomically
    (h : copyObjectAtomically codec env source destination fs = (.ok digest, effects))
    (hpath : path ≠ destination)
    (htemporary : path ≠ .temporary destination env.pid env.objectSequence) :
    ∀ effect ∈ effects, path ∉ effect.paths := by
  obtain ⟨-, ⟨-, rfl⟩ | ⟨-, -, rfl⟩⟩ := copyObjectAtomically_eq_ok_iff.1 h
  · simp
  · exact notMem_paths_replace htemporary hpath

/-- A copy that succeeded is a copy. -/
theorem hashFile_after_copyObjectAtomically
    (h : copyObjectAtomically codec env source destination fs = (.ok digest, effects)) :
    hashFile codec (after fs effects) destination = .ok digest := by
  obtain ⟨hdigest, ⟨hhash, rfl⟩ | ⟨-, -, rfl⟩⟩ := copyObjectAtomically_eq_ok_iff.1 h
  · exact hhash
  · exact hashFile_eq_ok_iff.2 ⟨source, get_after_replace, hdigest⟩

/-- A write of a manifest touches its file only. -/
theorem notMem_paths_of_writeManifest (h : writeManifest codec manifest fs = (.ok u, effects))
    (hpath : path ≠ .manifest manifest.generation) : ∀ effect ∈ effects, path ∉ effect.paths := by
  obtain ⟨-, rfl⟩ | ⟨-, rfl⟩ := writeManifest_eq_ok_iff.1 h
  · exact notMem_paths_writeNew hpath
  · simp

theorem get_after_writeManifest (h : writeManifest codec manifest fs = (.ok u, effects)) :
    (after fs effects).get (.manifest manifest.generation) = some (codec.encode manifest) := by
  obtain ⟨-, rfl⟩ | ⟨hbytes, rfl⟩ := writeManifest_eq_ok_iff.1 h
  · exact get_after_writeNew
  · exact hbytes

variable {tier' : LocalObjectTier} {packSequence : UInt64} {extents : List TierExtent}
  {next : TierManifest} {copied written : List (Files.Effect TierPath)}

/-- The parts of an offload that publishes the manifest `next`. -/
structure Offload (codec : TierCodec) (env : TierEnv) (tier : LocalObjectTier)
    (packSequence : UInt64) (source : Bytes) (extents : List TierExtent) (fs : Directory TierPath)
    (digest : UInt64 × String) (next : TierManifest)
    (copied written : List (Files.Effect TierPath)) : Prop where
  covered : extents ≠ []
  unlisted : tier.manifest.objects.find? (·.packSequence = packSequence) = none
  ordered : tier.manifest.objects.getLast?.any (packSequence ≤ ·.packSequence) = false
  nonempty : source ≠ []
  safe : codec.safeKey (objectKeyOf tier.shardId packSequence) = true
  copy : copyObjectAtomically codec env source (.object (objectKeyOf tier.shardId packSequence))
    fs = (.ok digest, copied)
  pushed : tier.manifest.push (offloadedObject tier.shardId packSequence digest env.now extents) =
    .ok next
  check : checkPublication codec tier.shardId tier.manifest.generation next fs = .ok ()
  write : writeManifest codec next fs = (.ok (), written)
  free : fs.get (.temporary .current env.pid env.currentSequence) = none

/-- The last effects of an offload: `CURRENT` is replaced. -/
def pointerEffects (codec : TierCodec) (env : TierEnv) (generation : UInt64) :
    List (Files.Effect TierPath) :=
  replace (.temporary .current env.pid env.currentSequence) .current (codec.render generation)

/-- Files that agree outside the objects are published to alike. -/
theorem checkPublication_congr (hcurrent : fs'.get .current = fs.get .current)
    (hmanifest : ∀ generation, fs'.get (.manifest generation) = fs.get (.manifest generation)) :
    checkPublication codec shardId expectedGeneration manifest fs' =
      checkPublication codec shardId expectedGeneration manifest fs := by
  have hload : loadCurrentManifest codec shardId fs' = loadCurrentManifest codec shardId fs := by
    simp only [loadCurrentManifest, hcurrent, hmanifest]
  simp only [checkPublication, hload]

/-- **A first offload of a pack, part by part.** -/
theorem offloadPack_eq_ok_iff
    (hunlisted : tier.manifest.objects.find? (·.packSequence = packSequence) = none) :
    tier.offloadPack codec env packSequence source extents fs = (.ok (object, tier'), effects) ↔
      ∃ digest next copied written,
        Offload codec env tier packSequence source extents fs digest next copied written ∧
        object = offloadedObject tier.shardId packSequence digest env.now extents ∧
        tier' = { tier with manifest := next } ∧
        effects = copied ++ (written ++ pointerEffects codec env next.generation) := by
  have hverify {digest : UInt64 × String} {copied : List (Files.Effect TierPath)}
      (hsafe : codec.safeKey (objectKeyOf tier.shardId packSequence) = true)
      (hcopy : copyObjectAtomically codec env source
        (.object (objectKeyOf tier.shardId packSequence)) fs = (.ok digest, copied)) :
      verifyObject codec (after fs copied)
        (offloadedObject tier.shardId packSequence digest env.now extents) = .ok () :=
    verifyObject_eq_ok_iff.2 ⟨hsafe, hashFile_after_copyObjectAtomically hcopy⟩
  -- the copy leaves the files alone that the publication looks at
  have hpublish {digest : UInt64 × String} {copied effects : List (Files.Effect TierPath)}
      {next : TierManifest} (hcopy : copyObjectAtomically codec env source
        (.object (objectKeyOf tier.shardId packSequence)) fs = (.ok digest, copied)) :
      publishManifest codec env tier.shardId tier.manifest.generation next (after fs copied) =
          (.ok (), effects) ↔
        checkPublication codec tier.shardId tier.manifest.generation next fs = .ok () ∧
        fs.get (.temporary .current env.pid env.currentSequence) = none ∧
        ∃ written, writeManifest codec next fs = (.ok (), written) ∧
          effects = written ++ pointerEffects codec env next.generation := by
    have hget (path : TierPath) (h₁ : path ≠ .object (objectKeyOf tier.shardId packSequence))
        (h₂ : path ≠ .temporary (.object (objectKeyOf tier.shardId packSequence)) env.pid
          env.objectSequence) : (after fs copied).get path = fs.get path :=
      get_after_of_notMem (notMem_paths_of_copyObjectAtomically hcopy h₁ h₂)
    have hmanifest (generation : UInt64) := hget (.manifest generation) nofun nofun
    have htemporary := hget (.temporary .current env.pid env.currentSequence) nofun (by simp)
    rw [publishManifest_eq_ok_iff, checkPublication_congr (hget .current nofun nofun) hmanifest,
      htemporary]
    simp only [writeManifest_eq_ok_iff, hmanifest, pointerEffects]
  simp only [LocalObjectTier.offloadPack, hunlisted]
  split
  next hcovered =>
    constructor
    · intro h; cases h
    · rintro ⟨_, _, _, _, h, -⟩; exact absurd hcovered h.covered
  next hcovered =>
    split
    next hordered =>
      constructor
      · intro h; cases h
      · rintro ⟨_, _, _, _, h, -⟩; simp [h.ordered] at hordered
    next hordered =>
      split
      next hnonempty =>
        constructor
        · intro h; cases h
        · rintro ⟨_, _, _, _, h, -⟩; exact absurd hnonempty h.nonempty
      next hnonempty =>
        simp only [Op.bind_eq_ok_iff, Op.inspect_eq_ok_iff, objectPath_eq_ok_iff, Op.pure_eq_ok_iff]
        constructor
        · rintro ⟨_, _, _, ⟨⟨hsafe, rfl⟩, rfl⟩, ⟨digest, copied, _, hcopy, ⟨_, _, _, ⟨-, rfl⟩,
            ⟨next, _, _, ⟨hpush, rfl⟩, ⟨_, published, _, hpublished, ⟨heq, rfl⟩, rfl⟩, rfl⟩, rfl⟩,
            rfl⟩, rfl⟩
          obtain ⟨hcheck, hfree, written, hwrite, rfl⟩ := (hpublish hcopy).1 hpublished
          cases heq
          exact ⟨digest, next, copied, written, ⟨hcovered, hunlisted, by simpa using hordered,
            hnonempty, hsafe, hcopy, hpush, hcheck, hwrite, hfree⟩, rfl, rfl, by simp⟩
        · rintro ⟨digest, next, copied, written, h, rfl, rfl, rfl⟩
          refine ⟨_, _, _, ⟨⟨h.safe, rfl⟩, rfl⟩, ⟨digest, copied, _, h.copy, ⟨(), _, _,
            ⟨hverify h.safe h.copy, rfl⟩, ⟨next, _, _, ⟨h.pushed, rfl⟩, ⟨(), _, _,
            (hpublish h.copy).2 ⟨h.check, h.free, written, h.write, rfl⟩, ⟨rfl, rfl⟩, rfl⟩, rfl⟩,
            rfl⟩, rfl⟩, by simp⟩

/-- **An offload of a pack that is listed** changes nothing. -/
theorem offloadPack_eq_ok_iff_of_listed {existing : TierObject}
    (hlisted : tier.manifest.objects.find? (·.packSequence = packSequence) = some existing) :
    tier.offloadPack codec env packSequence source extents fs = (.ok (object, tier'), effects) ↔
      extents ≠ [] ∧ digestOf codec source = .ok (existing.bytes, existing.checksum) ∧
      verifyObject codec fs existing = .ok () ∧ existing.extents = extents ∧
      object = existing ∧ tier' = tier ∧ effects = [] := by
  have hconfirm {u : Unit} :
      LocalObjectTier.confirm codec existing packSequence source extents fs = .ok u ↔
        digestOf codec source = .ok (existing.bytes, existing.checksum) ∧
        verifyObject codec fs existing = .ok () ∧ existing.extents = extents := by
    simp only [LocalObjectTier.confirm, bind_eq_ok_iff, ite_error_eq_ok_iff, not_or, not_not,
      and_true]
    constructor
    · rintro ⟨digest, hdigest, ⟨hbytes, hchecksum⟩, ⟨⟩, hverified, hextents⟩
      rw [hbytes, hchecksum]
      exact ⟨hdigest, hverified, hextents⟩
    · rintro ⟨hdigest, hverified, hextents⟩
      exact ⟨_, hdigest, ⟨rfl, rfl⟩, (), hverified, hextents⟩
  simp only [LocalObjectTier.offloadPack, hlisted]
  split
  next hcovered => simp [Op.inspect, hcovered]
  next hcovered =>
    simp only [Op.inspect_eq_ok_iff, map_eq_ok_iff]
    grind

end Offload

end ShardStream
