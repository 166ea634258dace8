import ShardStream.Storage.Tier

/-!
# Interrupted offloads

A crash may stop an offload after any of its effects, and a write in the middle. What it leaves is
`Interrupted`: no object is lost, the copy is whole or missing, and `CURRENT` names the new manifest
only when all of it is there. Hence opening the tier afterwards always succeeds, with the manifest
from before or the one that was being published (`Offload.openTier_of_current`,
`Offload.openTier_of_named`).

A second offload of the same pack is another matter. The manifest holds the time at which it was
built, so that once a manifest file of the next generation exists, whole or in part, a later attempt
compares it with a text that differs, and refuses. `Offload.retry_iff` has the conditions under
which it succeeds.
-/

namespace ShardStream

open Files List

section Offload

variable {codec : TierCodec} {env env' : TierEnv} {fs fs' : Directory TierPath}
  {effects : List (Files.Effect TierPath)} {source : Bytes} {digest : UInt64 × String}
  {tier tier' : LocalObjectTier} {packSequence : UInt64} {extents : List TierExtent}
  {object : TierObject} {next : TierManifest} {copied written : List (Files.Effect TierPath)}

/-! ### Interrupted offloads -/

/-- What an offload leaves when it is interrupted. -/
structure Interrupted (codec : TierCodec) (key : String) (digest : UInt64 × String)
    (next : TierManifest) (fs fs' : Directory TierPath) : Prop where
  /-- No object is lost or changed. -/
  objects : ∀ key contents, fs.get (.object key) = some contents →
    fs'.get (.object key) = some contents
  /-- The copy is not there or it is whole. -/
  object : fs'.get (.object key) = none ∨ hashFile codec fs' (.object key) = .ok digest
  manifests : ∀ generation, generation ≠ next.generation →
    fs'.get (.manifest generation) = fs.get (.manifest generation)
  /-- The new manifest is not there or is the front of what it should be. -/
  manifest : fs'.get (.manifest next.generation) = none ∨
    ∃ n, fs'.get (.manifest next.generation) = some ((codec.encode next).take n)
  /-- `CURRENT` does not name the new manifest before it and the copy are whole. -/
  current : fs'.get .current = fs.get .current ∨
    fs'.get .current = some (codec.render next.generation) ∧
      fs'.get (.manifest next.generation) = some (codec.encode next) ∧
      hashFile codec fs' (.object key) = .ok digest

theorem hashFile_congr {path : TierPath} (h : fs'.get path = fs.get path) :
    hashFile codec fs' path = hashFile codec fs path := by
  rw [hashFile, hashFile, h]

/-- A copy that is interrupted changes the object from nothing to the whole of it. -/
theorem get_of_crash_copyObjectAtomically {key : String} (hcrash : Crash fs copied fs')
    (hcopy : copyObjectAtomically codec env source (.object key) fs = (.ok digest, copied)) :
    fs'.get (.object key) = fs.get (.object key) ∨
      fs.get (.object key) = none ∧ fs'.get (.object key) = some source := by
  obtain ⟨-, ⟨-, rfl⟩ | ⟨hnone, -, rfl⟩⟩ := copyObjectAtomically_eq_ok_iff.1 hcopy
  · cases hcrash
    exact .inl rfl
  · exact (hcrash.replace (by simp)).imp_right fun h ↦ ⟨hnone, h⟩

/-- The objects that were verified before an offload still are. -/
theorem Interrupted.verifyObject {key : String} (h : Interrupted codec key digest next fs fs')
    (hverified : verifyObject codec fs object = .ok ()) :
    verifyObject codec fs' object = .ok () := by
  obtain ⟨hsafe, hhash⟩ := verifyObject_eq_ok_iff.1 hverified
  obtain ⟨contents, hcontents, hdigest⟩ := hashFile_eq_ok_iff.1 hhash
  exact verifyObject_eq_ok_iff.2
    ⟨hsafe, hashFile_eq_ok_iff.2 ⟨contents, h.objects _ _ hcontents, hdigest⟩⟩

namespace Offload

variable (h : Offload codec env tier packSequence source extents fs digest next copied written)

include h

/-- **An offload can be interrupted anywhere.** -/
theorem interrupted
    (hcrash : Crash fs (copied ++ (written ++ pointerEffects codec env next.generation)) fs') :
    Interrupted codec (objectKeyOf tier.shardId packSequence) digest next fs fs' := by
  obtain ⟨fs₁, hcopied, hrest, hend₁⟩ := hcrash.exists_of_append
  obtain ⟨fs₂, hwritten, hpointer, hend₂⟩ := hrest.exists_of_append
  have hget₁ (path : TierPath) (h₁ : path ≠ .object (objectKeyOf tier.shardId packSequence))
      (h₂ : path ≠ .temporary (.object (objectKeyOf tier.shardId packSequence)) env.pid
        env.objectSequence) : fs₁.get path = fs.get path :=
    hcopied.get_of_notMem (notMem_paths_of_copyObjectAtomically h.copy h₁ h₂)
  have hget₂ (path : TierPath) (h₁ : path ≠ .manifest next.generation) :
      fs₂.get path = fs₁.get path :=
    hwritten.get_of_notMem (notMem_paths_of_writeManifest h.write h₁)
  have hget₃ (path : TierPath) (h₁ : path ≠ .current)
      (h₂ : path ≠ .temporary .current env.pid env.currentSequence) :
      fs'.get path = fs₂.get path :=
    hpointer.get_of_notMem (notMem_paths_replace h₂ h₁)
  have hobject (key : String) : fs'.get (.object key) = fs₁.get (.object key) :=
    (hget₃ (.object key) nofun nofun).trans (hget₂ (.object key) nofun)
  have hmanifest (generation : UInt64) :
      fs'.get (.manifest generation) = fs₂.get (.manifest generation) := hget₃ _ nofun nofun
  have hmanifest₁ (generation : UInt64) := hget₁ (.manifest generation) nofun nofun
  have hcurrent₁ := hget₁ .current nofun nofun
  have hcopy := get_of_crash_copyObjectAtomically hcopied h.copy
  obtain ⟨hdigest, hfound⟩ := copyObjectAtomically_eq_ok_iff.1 h.copy
  refine ⟨?_, ?_, ?_, ?_, ?_⟩
  · intro key contents hcontents
    rw [hobject]
    by_cases hkey : key = objectKeyOf tier.shardId packSequence
    · subst hkey
      obtain heq | ⟨hnone, -⟩ := hcopy
      · rw [heq, hcontents]
      · rw [hnone] at hcontents
        cases hcontents
    · rw [hget₁ (.object key) (by simpa using hkey) nofun, hcontents]
  · obtain heq | ⟨-, heq⟩ := hcopy
    · obtain ⟨hhash, -⟩ | ⟨hnone, -⟩ := hfound
      · exact .inr (by rw [hashFile_congr (hobject _), hashFile_congr heq, hhash])
      · exact .inl (by rw [hobject, heq, hnone])
    · exact .inr (hashFile_eq_ok_iff.2 ⟨source, by rw [hobject, heq], hdigest⟩)
  · intro generation hne
    rw [hmanifest, hget₂ _ (by simpa using hne), hmanifest₁]
  · rw [hmanifest]
    obtain ⟨hnone, rfl⟩ | ⟨hsome, rfl⟩ := writeManifest_eq_ok_iff.1 h.write
    · obtain heq | hfront := hwritten.writeNew
      · exact .inl (by rw [heq, hmanifest₁, hnone])
      · exact .inr hfront
    · cases hwritten
      exact .inr ⟨(codec.encode next).length, by rw [hmanifest₁, hsome, take_length]⟩
  · have hbefore : fs₂.get .current = fs.get .current :=
      (hget₂ .current nofun).trans hcurrent₁
    obtain heq | hnamed := Crash.replace (by simp) hpointer
    · exact .inl (heq.trans hbefore)
    obtain rfl | rfl := hend₂
    · obtain rfl | rfl := hend₁
      · refine .inr ⟨hnamed, ?_, ?_⟩
        · have hwrite : writeManifest codec next (after fs copied) = (.ok (), written) := by
            rw [writeManifest_eq_ok_iff, hmanifest₁]
            exact writeManifest_eq_ok_iff.1 h.write
          rw [hmanifest, get_after_writeManifest hwrite]
        · rw [hashFile_congr (hobject _)]
          exact hashFile_after_copyObjectAtomically h.copy
      · exact .inl hcurrent₁
    · exact .inl hbefore

/-! ### Opening a tier after an interrupted offload -/

theorem generation_ne : tier.manifest.generation ≠ next.generation := by
  obtain ⟨hlast, rfl⟩ := push_eq_ok_iff.1 h.pushed
  intro heq
  have hsucc : (tier.manifest.generation + 1).toNat = tier.manifest.generation.toNat + 1 := by
    exact Nat.mod_eq_of_lt hlast
  have := congrArg UInt64.toNat heq
  dsimp only [TierManifest.next] at this
  omega

variable (hopen : openTier codec tier.shardId fs = .ok tier)

include hopen

/-- As long as `CURRENT` has not been replaced the tier is as it was. -/
theorem openTier_of_current
    (hleft : Interrupted codec (objectKeyOf tier.shardId packSequence) digest next fs fs')
    (hcurrent : fs'.get .current = fs.get .current) :
    openTier codec tier.shardId fs' = .ok tier := by
  obtain ⟨-, hload, hvalid, hverified⟩ := openTier_eq_ok_iff.1 hopen
  exact openTier_eq_ok_iff.2 ⟨rfl,
    loadCurrentManifest_of_get hload hcurrent (hleft.manifests _ h.generation_ne), hvalid,
    fun object hobject ↦ hleft.verifyObject (hverified object hobject)⟩

/-- After that it has the new manifest. -/
theorem openTier_of_named
    (hleft : Interrupted codec (objectKeyOf tier.shardId packSequence) digest next fs fs')
    (hcurrent : fs'.get .current = some (codec.render next.generation))
    (hmanifest : fs'.get (.manifest next.generation) = some (codec.encode next))
    (hobject : hashFile codec fs' (.object (objectKeyOf tier.shardId packSequence)) = .ok digest) :
    openTier codec tier.shardId fs' = .ok { tier with manifest := next } := by
  obtain ⟨-, -, -, hverified⟩ := openTier_eq_ok_iff.1 hopen
  obtain ⟨hvalid, -, -, hlimit⟩ := checkPublication_eq_ok_iff.1 h.check
  refine openTier_eq_ok_iff.2 ⟨rfl, loadCurrentManifest_eq_ok_iff.2 (.inr ⟨_, _, hcurrent,
    codec.parse_render _, hmanifest, hlimit, codec.decode_encode _⟩), hvalid, ?_⟩
  obtain ⟨-, rfl⟩ := push_eq_ok_iff.1 h.pushed
  intro object hmem
  obtain hold | hnew := mem_append.1 hmem
  · exact hleft.verifyObject (hverified object hold)
  · obtain rfl := mem_singleton.1 hnew
    exact verifyObject_eq_ok_iff.2 ⟨h.safe, hobject⟩

/-- An offload that is not interrupted leaves the tier that it returns. -/
theorem openTier_after :
    openTier codec tier.shardId
        (after fs (copied ++ (written ++ pointerEffects codec env next.generation))) =
      .ok { tier with manifest := next } := by
  have hleft := h.interrupted (Crash.complete ..)
  obtain hcurrent | ⟨hcurrent, hmanifest, hobject⟩ := hleft.current
  · -- `CURRENT` named another generation before
    have hnamed : fs.get .current = some (codec.render next.generation) := by
      rw [← hcurrent, after_append, after_append]
      exact get_after_replace
    obtain ⟨-, hload, -⟩ := openTier_eq_ok_iff.1 hopen
    obtain ⟨hnone, -⟩ | ⟨text, _, htext, hparse, -⟩ := loadCurrentManifest_eq_ok_iff.1 hload
    · rw [hnone] at hnamed
      cases hnamed
    · rw [htext] at hnamed
      cases hnamed
      rw [codec.parse_render] at hparse
      exact absurd (Option.some.inj hparse).symm h.generation_ne
  · exact h.openTier_of_named hopen hleft hcurrent hmanifest hobject

end Offload

theorem mem_next_objects {manifest : TierManifest} :
    object ∈ (manifest.next object).objects := by
  simp [TierManifest.next]

/-- **What an offload returns is published**: opening the tier finds it. -/
theorem openTier_after_offloadPack (hopen : openTier codec tier.shardId fs = .ok tier)
    (h : tier.offloadPack codec env packSequence source extents fs =
      (.ok (object, tier'), effects)) :
    openTier codec tier.shardId (after fs effects) = .ok tier' ∧
      object ∈ tier'.manifest.objects ∧ object.packSequence = packSequence := by
  cases hfind : tier.manifest.objects.find? (·.packSequence = packSequence) with
  | some existing =>
    obtain ⟨-, -, -, -, rfl, rfl, rfl⟩ := (offloadPack_eq_ok_iff_of_listed hfind).1 h
    exact ⟨hopen, mem_of_find?_eq_some hfind, by simpa using find?_some hfind⟩
  | none =>
    obtain ⟨digest, next, copied, written, hoffload, rfl, rfl, rfl⟩ :=
      (offloadPack_eq_ok_iff hfind).1 h
    obtain ⟨-, rfl⟩ := push_eq_ok_iff.1 hoffload.pushed
    exact ⟨hoffload.openTier_after hopen, mem_next_objects, rfl⟩

/-! ### Offloading the pack again -/

/-- Whether a manifest is valid does not depend on the time at which its last object was made. -/
theorem validateObjects_append_createdUnixMs (objects : List TierObject) (object : TierObject)
    (now : UInt64) (previous : Option UInt64) :
    validateObjects codec previous (objects ++ [{ object with createdUnixMs := now }]) =
      validateObjects codec previous (objects ++ [object]) := by
  induction objects generalizing previous with
  | nil => rfl
  | cons first objects ih => simp only [cons_append, validateObjects, ih]

/-- The conditions under which an attempt at `env'` succeeds after one at `env` that would have
listed `object` in the manifest `next`. -/
structure RetryClear (codec : TierCodec) (env env' : TierEnv) (tier : LocalObjectTier)
    (object : TierObject) (next : TierManifest) (fs : Directory TierPath) : Prop where
  /-- The first attempt did not get to the manifest file, or it wrote the whole of it and the second
  is made in the same millisecond. -/
  manifest : fs.get (.manifest next.generation) = none ∨
    fs.get (.manifest next.generation) = some (codec.encode next) ∧ env'.now = env.now
  /-- The second attempt finds the copy, or the temporary name it makes for it is free. -/
  copy : fs.get (.object object.objectKey) = none →
    fs.get (.temporary (.object object.objectKey) env'.pid env'.objectSequence) = none
  /-- So is the one it makes for `CURRENT`. -/
  pointer : fs.get (.temporary .current env'.pid env'.currentSequence) = none
  /-- With the time of the second attempt the manifest is not too long. -/
  limit : ∀ later, tier.manifest.push { object with createdUnixMs := env'.now } = .ok later →
    (codec.encode later).length ≤ maxManifestBytes

namespace Offload

variable (h : Offload codec env tier packSequence source extents fs digest next copied written)

include h

/-- **A second offload after an interrupted one**, before `CURRENT` was replaced. -/
theorem retry_iff (hopen : openTier codec tier.shardId fs' = .ok tier)
    (hleft : Interrupted codec (objectKeyOf tier.shardId packSequence) digest next fs fs') :
    (∃ result effects, tier.offloadPack codec env' packSequence source extents fs' =
        (.ok result, effects)) ↔
      RetryClear codec env env' tier
        (offloadedObject tier.shardId packSequence digest env.now extents) next fs' := by
  obtain ⟨hlast, rfl⟩ := push_eq_ok_iff.1 h.pushed
  obtain ⟨hdigest, -⟩ := copyObjectAtomically_eq_ok_iff.1 h.copy
  obtain ⟨hvalid, -, hgeneration, -⟩ := checkPublication_eq_ok_iff.1 h.check
  obtain ⟨-, hload, -⟩ := openTier_eq_ok_iff.1 hopen
  constructor
  · rintro ⟨⟨object, tier'⟩, effects, hretry⟩
    obtain ⟨digest', next', copied', written', h', -⟩ := (offloadPack_eq_ok_iff h.unlisted).1 hretry
    obtain ⟨hdigest', hcopy'⟩ := copyObjectAtomically_eq_ok_iff.1 h'.copy
    obtain rfl : digest = digest' := Except.ok.inj (hdigest.symm.trans hdigest')
    obtain ⟨-, rfl⟩ := push_eq_ok_iff.1 h'.pushed
    refine ⟨?_, ?_, h'.free, ?_⟩
    · obtain ⟨hnone, -⟩ | ⟨hsome, -⟩ := writeManifest_eq_ok_iff.1 h'.write
      · exact .inl hnone
      obtain hnone | ⟨n, hfront⟩ := hleft.manifest
      · exact .inl hnone
      -- what is there is the front of one manifest and the whole of the other
      have hencode := Option.some.inj (hsome.symm.trans hfront)
      have heq := codec.encode_inj_of_front _ _ (hencode ▸ take_prefix n _)
      have hobject := singleton_inj.1 (append_cancel_left (congrArg TierManifest.objects heq))
      have hnow : env'.now = env.now := congrArg TierObject.createdUnixMs hobject
      rw [heq] at hsome
      exact .inr ⟨hsome, hnow⟩
    · intro hnone
      obtain ⟨hhash, -⟩ | ⟨-, hfree, -⟩ := hcopy'
      · obtain ⟨contents, hcontents, -⟩ := hashFile_eq_ok_iff.1 hhash
        exact absurd hnone (by simp [offloadedObject, hcontents])
      · exact hfree
    · intro later hlater
      obtain rfl := Except.ok.inj (h'.pushed.symm.trans hlater)
      exact (checkPublication_eq_ok_iff.1 h'.check).2.2.2
  · intro hclear
    have hpushed : tier.manifest.push
        (offloadedObject tier.shardId packSequence digest env'.now extents) = .ok _ :=
      push_eq_ok_iff.2 ⟨hlast, rfl⟩
    have hvalid' : (tier.manifest.next
        (offloadedObject tier.shardId packSequence digest env'.now extents)).validate codec
        tier.shardId = .ok () := by
      rw [← hvalid]
      simp only [TierManifest.validate, TierManifest.next]
      rw [← validateObjects_append_createdUnixMs _
        (offloadedObject tier.shardId packSequence digest env.now extents) env'.now]
      rfl
    obtain ⟨copied', hcopy⟩ : ∃ copied', copyObjectAtomically codec env' source
        (.object (objectKeyOf tier.shardId packSequence)) fs' = (.ok digest, copied') := by
      simp only [copyObjectAtomically_eq_ok_iff, hdigest, true_and]
      obtain hnone | hhash := hleft.object
      · exact ⟨_, .inr ⟨hnone, hclear.copy hnone, rfl⟩⟩
      · exact ⟨[], .inl ⟨hhash, rfl⟩⟩
    obtain ⟨written', hwrite⟩ : ∃ written', writeManifest codec (tier.manifest.next
        (offloadedObject tier.shardId packSequence digest env'.now extents)) fs' =
        (.ok (), written') := by
      simp only [writeManifest_eq_ok_iff]
      obtain hnone | ⟨hsome, hnow⟩ := hclear.manifest
      · exact ⟨_, .inl ⟨hnone, rfl⟩⟩
      · exact ⟨[], .inr ⟨by rw [hnow]; exact hsome, rfl⟩⟩
    exact ⟨_, _, (offloadPack_eq_ok_iff h.unlisted).2 ⟨digest, _, copied', written',
      ⟨h.covered, h.unlisted, h.ordered, h.nonempty, h.safe, hcopy, hpushed,
        checkPublication_eq_ok_iff.2
          ⟨hvalid', ⟨_, hload, rfl⟩, hgeneration, hclear.limit _ hpushed⟩,
        hwrite, hclear.pointer⟩, rfl, rfl, rfl⟩⟩

/-- An offload of a listed pack can be repeated. -/
theorem retry_of_named
    (hopen : openTier codec tier.shardId fs' = .ok { tier with manifest := next }) :
    ∃ result effects, LocalObjectTier.offloadPack codec env' { tier with manifest := next }
      packSequence source extents fs' = (.ok result, effects) := by
  obtain ⟨hdigest, -⟩ := copyObjectAtomically_eq_ok_iff.1 h.copy
  obtain ⟨-, -, -, hverified⟩ := openTier_eq_ok_iff.1 hopen
  obtain ⟨-, rfl⟩ := push_eq_ok_iff.1 h.pushed
  have hlisted : (tier.manifest.next (offloadedObject tier.shardId packSequence digest env.now
      extents)).objects.find? (·.packSequence = packSequence) =
      some (offloadedObject tier.shardId packSequence digest env.now extents) := by
    simp only [TierManifest.next, find?_append, h.unlisted]
    simp [offloadedObject]
  exact ⟨_, _, (offloadPack_eq_ok_iff_of_listed hlisted).2
    ⟨h.covered, hdigest, hverified _ mem_next_objects, rfl, rfl, rfl, rfl⟩⟩

end Offload

/-- **What becomes of an interrupted offload.** Whatever effects a crash lets an offload have, the
tier opens with the manifest from before or with the new one. Offloading the pack again succeeds,
and publishes a manifest that lists it, if the pack is listed by then, or else under the conditions
of `RetryClear`. -/
theorem interrupted_offload_retry_iff {shardId : UInt32}
    (hopen : openTier codec shardId fs = .ok tier)
    (hoffload : tier.offloadPack codec env packSequence source extents fs =
      (.ok (object, tier'), effects))
    (hcrash : Crash fs effects fs') :
    ∃ reopened, openTier codec shardId fs' = .ok reopened ∧ (reopened = tier ∨ reopened = tier') ∧
      ((∃ object' tier'' effects', reopened.offloadPack codec env' packSequence source extents fs' =
          (.ok (object', tier''), effects') ∧
          openTier codec shardId (after fs' effects') = .ok tier'' ∧
          object' ∈ tier''.manifest.objects ∧ object'.packSequence = packSequence) ↔
        (∃ listed ∈ reopened.manifest.objects, listed.packSequence = packSequence) ∨
          RetryClear codec env env' tier object tier'.manifest fs') := by
  obtain ⟨rfl, -⟩ := openTier_eq_ok_iff.1 hopen
  have hpublished {reopened : LocalObjectTier}
      (hreopen : openTier codec tier.shardId fs' = .ok reopened)
      (hshard : reopened.shardId = tier.shardId) :
      (∃ object' tier'' effects', reopened.offloadPack codec env' packSequence source extents fs' =
          (.ok (object', tier''), effects') ∧
          openTier codec tier.shardId (after fs' effects') = .ok tier'' ∧
          object' ∈ tier''.manifest.objects ∧ object'.packSequence = packSequence) ↔
        ∃ result effects', reopened.offloadPack codec env' packSequence source extents fs' =
          (.ok result, effects') := by
    rw [← hshard] at hreopen ⊢
    constructor
    · rintro ⟨object', tier'', effects', hretry, -⟩
      exact ⟨(object', tier''), effects', hretry⟩
    · rintro ⟨⟨object', tier''⟩, effects', hretry⟩
      exact ⟨object', tier'', effects', hretry, openTier_after_offloadPack hreopen hretry⟩
  cases hfind : tier.manifest.objects.find? (·.packSequence = packSequence) with
  | some existing =>
    -- the first attempt found the pack in the manifest, so does the second
    obtain ⟨hcovered, hdigest, hverified, hextents, rfl, rfl, rfl⟩ :=
      (offloadPack_eq_ok_iff_of_listed hfind).1 hoffload
    cases hcrash
    refine ⟨tier', hopen, .inl rfl, ?_⟩
    rw [hpublished hopen rfl]
    exact iff_of_true ⟨_, _, (offloadPack_eq_ok_iff_of_listed hfind).2
      ⟨hcovered, hdigest, hverified, hextents, rfl, rfl, rfl⟩⟩
      (.inl ⟨object, mem_of_find?_eq_some hfind, by simpa using find?_some hfind⟩)
  | none =>
    obtain ⟨digest, next, copied, written, h, rfl, rfl, rfl⟩ :=
      (offloadPack_eq_ok_iff hfind).1 hoffload
    have hleft := h.interrupted hcrash
    obtain hcurrent | ⟨hcurrent, hmanifest, hobject⟩ := hleft.current
    · have hreopen := h.openTier_of_current hopen hleft hcurrent
      refine ⟨tier, hreopen, .inl rfl, ?_⟩
      rw [hpublished hreopen rfl, h.retry_iff hreopen hleft, or_iff_right]
      rintro ⟨listed, hlisted, rfl⟩
      exact absurd (find?_eq_none.1 hfind listed hlisted) (by simp)
    · have hreopen := h.openTier_of_named hopen hleft hcurrent hmanifest hobject
      refine ⟨_, hreopen, .inr rfl, ?_⟩
      rw [hpublished hreopen rfl]
      obtain ⟨-, rfl⟩ := push_eq_ok_iff.1 h.pushed
      exact iff_of_true (h.retry_of_named hreopen) (.inl ⟨_, mem_next_objects, rfl⟩)

end Offload

/-! ### A tier with plain files

Manifests are written field by field, lists and texts with their length before them. -/

namespace PlainTier

/-- A way to write values down, and the reader for it. -/
structure Plain (α : Type) where
  put : α → Bytes
  read : Reader String α
  reads : ∀ a, Reader.Reads read (put a) a

namespace Plain

variable {α β : Type}

/-- What the readers report when the bytes run out. -/
def short : String := "EOF while parsing"

def number (width : Nat) (toNat : α → Nat) (ofNat : Nat → α) (hlt : ∀ a, toNat a < 256 ^ width)
    (h : ∀ a, ofNat (toNat a) = a) : Plain α :=
  ⟨fun a ↦ Bytes.le width (toNat a), ofNat <$> Reader.number short width, fun a ↦
    (Reader.reads_number (hlt a)).map_eq (h a)⟩

def list (p : Plain α) : Plain (List α) :=
  ⟨fun as ↦ replicate as.length 1 ++ [0] ++ as.flatMap p.put, Reader.list short p.read,
    Reader.reads_list p.reads⟩

def pair (p : Plain α) (q : Plain β) : Plain (α × β) where
  put x := p.put x.1 ++ q.put x.2
  read := do
    let a ← p.read
    let b ← q.read
    pure (a, b)
  reads x := (p.reads x.1).bind (q.reads x.2).map

def map (p : Plain α) (f : α → β) (g : β → α) (h : ∀ b, f (g b) = b) : Plain β :=
  ⟨fun b ↦ p.put (g b), f <$> p.read, fun b ↦ (p.reads (g b)).map_eq (h b)⟩

def u32 : Plain UInt32 := number 4 UInt32.toNat .ofNat UInt32.toNat_lt fun _ ↦ UInt32.ofNat_toNat

def u64 : Plain UInt64 := number 8 UInt64.toNat .ofNat UInt64.toNat_lt fun _ ↦ UInt64.ofNat_toNat

def text : Plain String :=
  (number 4 Char.toNat .ofNat (fun c ↦ c.val.toNat_lt) Char.ofNat_toNat).list.map .ofList
    String.toList fun _ ↦ String.ofList_toList

def extent : Plain TierExtent :=
  (text.pair <| u32.pair <| u64.pair <| u64.pair <| u32.pair <| u64.pair u64).map
    (fun (topic, partition, first, last, lane, ring, leader) ↦
      ⟨topic, partition, first, last, lane, ring, leader⟩)
    (fun e ↦ (e.topicId, e.partitionId, e.firstOffset, e.lastOffset, e.virtualLaneId, e.ringEpoch,
      e.leaderEpoch)) fun _ ↦ rfl

def object : Plain TierObject :=
  (u64.pair <| text.pair <| u64.pair <| text.pair <| text.pair <| u64.pair extent.list).map
    (fun (sequence, key, bytes, algorithm, checksum, created, extents) ↦
      ⟨sequence, key, bytes, algorithm, checksum, created, extents⟩)
    (fun o ↦ (o.packSequence, o.objectKey, o.bytes, o.checksumAlgorithm, o.checksum,
      o.createdUnixMs, o.extents)) fun _ ↦ rfl

def manifest : Plain TierManifest :=
  (u32.pair <| u64.pair <| u32.pair object.list).map
    (fun (version, generation, shard, objects) ↦ ⟨version.toUInt8, generation, shard, objects⟩)
    (fun m ↦ (m.formatVersion.toUInt32, m.generation, m.shardId, m.objects))
    fun m ↦ by simp only [UInt8.toUInt8_toUInt32]

end Plain

/-- Every path is safe here and every topic a number; the digest is of the right length. -/
def codec : TierCodec where
  encode := Plain.manifest.put
  decode bytes := (Plain.manifest.read bytes).map Prod.fst
  decode_encode m := by
    have h := Plain.manifest.reads m []
    rw [append_nil] at h
    rw [h]
    rfl
  encode_inj_of_front m m' h := (Plain.manifest.reads m).inj (Plain.manifest.reads m') h
  render := Plain.u64.put
  parse bytes := ((Plain.u64.read bytes).map Prod.fst).toOption
  parse_render generation := by
    have h := Plain.u64.reads generation []
    rw [append_nil] at h
    rw [h]
    rfl
  blake3 _ := String.ofList (replicate 64 '0')
  safeKey _ := true
  isU128 _ := true

/-- A tier that has listed nothing. -/
def tier : LocalObjectTier := ⟨0, .empty 0⟩

/-- Two processes, the second a millisecond later. -/
def earlier : TierEnv := ⟨1, 0, 1, 1000⟩

def later : TierEnv := ⟨2, 0, 1, 1001⟩

def extents : List TierExtent := [⟨"7", 0, 0, 9, 0, 1, 1⟩]

/-- The offload of the first pack, and its effects. -/
def offload (env : TierEnv) (fs : Directory TierPath) :=
  tier.offloadPack codec env 1 [1, 2, 3] extents fs

/-- The object it lists. -/
def listed : TierObject := offloadedObject 0 1 (3, codec.blake3 [1, 2, 3]) earlier.now extents

/-- The tier that lists it. -/
def listing : LocalObjectTier := { tier with manifest := tier.manifest.next listed }

/-- The files when the offload is interrupted after so many effects. -/
def interruptedAfter (n : Nat) : Directory TierPath :=
  after Table.empty ((offload earlier Table.empty).2.take n)

end PlainTier

open PlainTier in
/-- The offload writes its manifest, the process ends before it replaces `CURRENT`, and another
tries again a millisecond later: the tier opens as it was and the offload is refused, though it
would have succeeded. -/
theorem offload_refused_after_manifest_written :
    openTier codec 0 Table.empty = .ok tier ∧
    (offload earlier Table.empty).1.toOption.isSome ∧
    Crash Table.empty (offload earlier Table.empty).2 (interruptedAfter 5) ∧
    openTier codec 0 (interruptedAfter 5) = .ok tier ∧ earlier.now < later.now ∧
    (offload later (interruptedAfter 5)).1 = .error (.corrupt (some (.manifest 1))
      "immutable manifest generation has different content") :=
  ⟨by decide +kernel, by decide +kernel, Crash.take .., by decide +kernel, by decide +kernel,
    by decide +kernel⟩

open PlainTier in
/-- Interrupted before the manifest file is created, the offload can be made again by another
process. -/
theorem offload_retried_before_manifest_created :
    RetryClear codec earlier later tier listed listing.manifest (interruptedAfter 3) ∧
    ∃ reopened, openTier codec 0 (interruptedAfter 3) = .ok reopened ∧
      (reopened = tier ∨ reopened = listing) ∧
      ((∃ object' tier'' effects', reopened.offloadPack codec later 1 [1, 2, 3] extents
          (interruptedAfter 3) = (.ok (object', tier''), effects') ∧
          openTier codec 0 (after (interruptedAfter 3) effects') = .ok tier'' ∧
          object' ∈ tier''.manifest.objects ∧ object'.packSequence = 1) ↔
        (∃ object ∈ reopened.manifest.objects, object.packSequence = 1) ∨
          RetryClear codec earlier later tier listed listing.manifest (interruptedAfter 3)) := by
  have hoffload : offload earlier Table.empty =
      (.ok (listed, listing), (offload earlier Table.empty).2) :=
    Prod.ext (by decide +kernel) rfl
  refine ⟨⟨.inl (by decide +kernel), by decide +kernel, by decide +kernel, ?_⟩,
    interrupted_offload_retry_iff (by decide +kernel) hoffload (Crash.take ..)⟩
  intro next hnext
  obtain ⟨-, rfl⟩ := push_eq_ok_iff.1 hnext
  decide +kernel

end ShardStream
