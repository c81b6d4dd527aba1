import SmsPlatform.Spill.Retention

/-!
# What an isolation reports

`isolate_ciphertext_locked` returns `True` when the artifact lies in its slot.  It also does
if the slot was in use before and has a manifest: it takes the file in it for the artifact,
whatever path it was given.  What it reports is true exactly if the artifact is then that file.
-/

namespace SmsPlatform.Spill

open Support Table SpillDirectory Option

namespace SpillDirectory

/-- What `isolate_ciphertext_locked` returns. -/
def isolated (d : SpillDirectory) (limits : CipherqLimits) (path : FileName) (requested : SlotKey)
    (fresh : Text) (io : IsolateIo) : Bool :=
  let key := d.allocate requested fresh
  if d.hasSlot key then (d.manifests.find? key).isSome
  else
    match d.file? path with
    | none => false
    | some f =>
      let evicted := d.enforceQuota limits 1 f.size
      io.hashed && evicted.hasCapacity limits f.size && io.manifestWritten && io.renamed &&
        evicted.has path

/-- The file has left its path and is the only one in the slot. -/
structure Moved (d : SpillDirectory) (path : FileName) (key : SlotKey) (f : SpillFile) : Prop where
  payload : d.file? (.cq key) = some { f with name := .cq key }
  unclaimed : d.has (.wip key) = false
  gone : d.has path = false

/-- The file at the path, and no other, is what the slot and its manifest stand for after an
isolation that leads from `d` to `d'`. -/
def Represented (d d' : SpillDirectory) (path : FileName) (key : SlotKey) : Prop :=
  ∃ f m, d.file? path = some f ∧ d'.Moved path key f ∧
    (∀ g ∈ d.files, g.name.slot? = some key → g = f) ∧
    d'.manifests.find? key = some m ∧ (m.srcName = path ∨
      ∃ m₀, d.manifests.find? key = some m₀ ∧ m.srcName = m₀.srcName)

/-- The path is the claimed file of the slot, with none beside it, and can be renamed. -/
def OwnClaim (d : SpillDirectory) (path : FileName) (key : SlotKey) (io : IsolateIo) : Prop :=
  path = .wip key ∧ d.has (.cq key) = false ∧ io.renamed = true

section

variable {d : SpillDirectory} {path : FileName} {key : SlotKey} {f : SpillFile} {m : Manifest}
  {io : IsolateIo} {now : ℕ}

theorem moved_replace (hfile : d.file? path = some f) (hpath : path ≠ .cq key)
    (hwip : ∀ g ∈ d.files, g.name = .wip key → g = f) :
    (d.replace path (.cq key)).Moved path key f := by
  refine ⟨file?_eq_some_iff.mpr ⟨(mem_replace_iff hfile).mpr (.inr rfl), rfl⟩,
    has_eq_false_iff.mpr (fun g hg hname => ?_), has_eq_false_iff.mpr (fun g hg hname => ?_)⟩
  · rcases (mem_replace_iff hfile).mp hg with ⟨hmem, hne, -⟩ | rfl
    · exact hne (hwip g hmem hname ▸ (file?_eq_some_iff.mp hfile).2)
    · cases hname
  · rcases (mem_replace_iff hfile).mp hg with ⟨-, hne, -⟩ | rfl
    · exact hne hname
    · exact hpath hname.symm

theorem Moved.sealManifest {written : Bool} {now : ℕ} (h : d.Moved path key f) :
    (d.sealManifest m written now).Moved path key f := by
  unfold SpillDirectory.sealManifest
  split
  · exact ⟨h.payload, h.unclaimed, h.gone⟩
  · exact h

theorem find?_sealManifest {written : Bool} {now : ℕ} (hm : d.manifests.find? m.key = some m) :
    ∃ m', (d.sealManifest m written now).manifests.find? m.key = some m' ∧
    m'.srcName = m.srcName := by
  unfold SpillDirectory.sealManifest
  split
  · exact ⟨_, find?_put_self d.manifests { m with isSealed := true, mtime := now }, rfl⟩
  · exact ⟨m, hm, rfl⟩

theorem isolateFresh_moves (reason : Reason) (now : ℕ) (hslot : d.hasSlot key = false)
    (hfile : d.file? path = some f) (hwritten : io.manifestWritten = true)
    (hrenamed : io.renamed = true) : (d.isolateFresh path key reason io now).Moved path key f ∧
    ∃ m, (d.isolateFresh path key reason io now).manifests.find? key = some m ∧
      m.srcName = path := by
  obtain ⟨hmem, rfl⟩ := file?_eq_some_iff.mp hfile
  have hslot' : ∀ g ∈ d.files, g.name.slot? ≠ some key :=
    fun g hg => slot?_ne_of_hasSlot_eq_false hslot hg
  let pending := d.writeManifest ⟨key, reason, false, f.name, now⟩
  have hmoved : (pending.replace f.name (.cq key)).Moved f.name key f :=
    moved_replace hfile (fun hname => hslot' f hmem (by rw [hname]; rfl))
      (fun g hg hname => absurd (by rw [hname]; rfl) (hslot' g hg))
  have hpending : pending.has f.name = true := isSome_of_eq_some hfile
  have heq : d.isolateFresh f.name key reason io now =
      (pending.replace f.name (.cq key)).sealManifest ⟨key, reason, false, f.name, now⟩
        io.sealWritten now := by
    rw [isolateFresh, hwritten, hrenamed]
    exact if_pos hpending
  rw [heq]
  refine ⟨hmoved.sealManifest, find?_sealManifest ?_⟩
  rw [manifests_replace]
  exact find?_put_self d.manifests ⟨key, reason, false, f.name, now⟩

/-- The claimed file of a slot goes back to it. -/
theorem reisolate_represented (hown : d.OwnClaim path key io) (hslot : d.hasSlot key = true)
    (hm : d.manifests.find? key = some m) :
    d.Represented (d.reisolate path key io now) path key := by
  obtain ⟨rfl, hcq, hrenamed⟩ := hown
  obtain ⟨-, rfl⟩ := find?_eq_some_iff.mp hm
  rw [hasSlot, hcq, Bool.false_or] at hslot
  obtain ⟨f, hf⟩ := isSome_iff_exists.mp hslot
  have hwip : ∀ g ∈ d.files, g.name = .wip m.key → g = f := fun g hg hname =>
    some.inj ((file?_eq_some_iff.mpr ⟨hg, hname⟩).symm.trans hf)
  have halone : ∀ g ∈ d.files, g.name.slot? = some m.key → g = f := by
    intro g hg hgslot
    rcases slot?_eq_some_iff.mp hgslot with hname | hname
    · exact absurd hname (has_eq_false_iff.mp hcq g hg)
    · exact hwip g hg hname
  have hmoved := moved_replace hf (by rintro ⟨⟩) hwip
  have hm' : (d.replace (.wip m.key) (.cq m.key)).manifests.find? m.key = some m := by
    rw [manifests_replace]
    exact hm
  simp only [reisolate, hm, decide_true, hcq, Bool.not_false, Bool.and_true, hrenamed, if_true]
  split
  · exact ⟨f, m, hf, hmoved, halone, hm', .inr ⟨m, hm, rfl⟩⟩
  · obtain ⟨m', hfind, hsrc⟩ := find?_sealManifest hm'
    exact ⟨f, m', hf, hmoved.sealManifest, halone, hfind, .inr ⟨m, hm, hsrc⟩⟩

/-- On a slot that is in use, an isolation moves no other file. -/
theorem ownClaim_of_gone (hm : d.manifests.find? key = some m) (hfile : d.file? path = some f)
    (hgone : (d.reisolate path key io now).has path = false) : d.OwnClaim path key io := by
  have hstays : ∀ d' : SpillDirectory, d'.files = d.files → d'.has path = true := by
    intro d' hfiles
    rw [has, file?, hfiles]
    exact isSome_of_eq_some hfile
  by_contra hown
  refine Bool.eq_false_iff.mp hgone (hstays _ ?_)
  simp only [reisolate, hm]
  split
  · rename_i hwip
    rw [Bool.and_eq_true, decide_eq_true_eq, Bool.not_eq_true'] at hwip
    rw [if_neg (fun hrenamed => hown ⟨hwip.1, hwip.2, hrenamed⟩)]
  · split
    · rfl
    · exact files_sealManifest

/-- An isolation that is reported on a free slot has moved the file. -/
theorem isolate_represented {limits : CipherqLimits} {reason : Reason}
    (hslot : d.hasSlot key = false) (hfile : d.file? path = some f)
    (hwritten : io.manifestWritten = true) (hrenamed : io.renamed = true)
    (hhas : (d.enforceQuota limits 1 f.size).has path = true) :
    d.Represented ((d.enforceQuota limits 1 f.size).isolateFresh path key reason io now) path
      key := by
  have hwithin : Within (d.enforceQuota limits 1 f.size) d :=
    (evictLoop_prunes (P := fun _ => False) (fun _ _ _ _ _ => id)).within
  obtain ⟨g, hg⟩ := isSome_iff_exists.mp hhas
  obtain rfl : g = f := some.inj ((hwithin.file? hg).symm.trans hfile)
  obtain ⟨hmoved, m, hm, hsrc⟩ := isolateFresh_moves reason now
    (hwithin.hasSlot_eq_false hslot) hg hwritten hrenamed
  exact ⟨g, m, hfile, hmoved, fun x hx hxslot =>
    absurd hxslot (slot?_ne_of_hasSlot_eq_false hslot hx), hm, .inl hsrc⟩

end

end SpillDirectory

/-- The return value `True` of an isolation is right, that is, the file is in the slot with a
manifest, has left its old path, and no other file was in the slot, exactly if a slot that was
in use with a manifest is that of the very file to be isolated, which can be renamed. -/
theorem isolation_moves_bytes (d : SpillDirectory) (limits : CipherqLimits) (path : FileName)
    (requested : SlotKey) (fresh : Text) (reason : Reason) (io : IsolateIo) (now : ℕ) :
    let key := d.allocate requested fresh
    (d.isolated limits path requested fresh io = true →
      d.Represented (d.isolate limits path requested fresh reason io now) path key) ↔
    (d.hasSlot key = true → (d.manifests.find? key).isSome = true → d.OwnClaim path key io) := by
  unfold isolated isolate
  dsimp only
  generalize d.allocate requested fresh = key
  by_cases hslot : d.hasSlot key = true
  · simp only [hslot, if_true, forall_const]
    constructor
    · intro h hsome
      obtain ⟨m, hm⟩ := isSome_iff_exists.mp hsome
      obtain ⟨f, -, hfile, hmoved, -⟩ := h hsome
      exact ownClaim_of_gone hm hfile hmoved.gone
    · intro hown hsome
      obtain ⟨m, hm⟩ := isSome_iff_exists.mp hsome
      exact reisolate_represented (hown hsome) hslot hm
  · simp only [if_neg hslot]
    refine iff_of_true ?_ (fun h => absurd h hslot)
    cases hf : d.file? path with
    | none => exact nofun
    | some f =>
      intro h
      simp only [Bool.and_eq_true] at h
      obtain ⟨⟨⟨⟨hhashed, hcapacity⟩, hwritten⟩, hrenamed⟩, hhas⟩ := h
      simp only [hhashed, hcapacity, Bool.not_true, Bool.false_eq_true, if_false, if_true]
      exact isolate_represented (Bool.eq_false_iff.mpr hslot) hf hwritten hrenamed hhas

/-- A temporary file and a final one with the same token. -/
def sameToken : SpillDirectory where
  files := ((Table.empty _).put ⟨.spillTmp sampleKey, 0, 64, 0⟩).put ⟨.spill sampleKey, 1, 64, 0⟩
  manifests := Table.empty _

theorem isolation_moves_bytes_sameToken : sameToken.Represented
    (sameToken.isolate sampleLimits (.spillTmp sampleKey) sampleKey [] .corrupt sampleIo 0)
    (.spillTmp sampleKey) (sameToken.allocate sampleKey []) :=
  (isolation_moves_bytes sameToken sampleLimits (.spillTmp sampleKey) sampleKey [] .corrupt
    sampleIo 0).mpr (absurd · (by decide +kernel)) (by decide +kernel)

/-- Once the temporary file has been isolated, the isolation of the final one is reported too,
but the file stays where it is. -/
theorem isolated_without_move :
    let d := sameToken.isolate sampleLimits (.spillTmp sampleKey) sampleKey [] .corrupt sampleIo 0
    d.isolated sampleLimits (.spill sampleKey) sampleKey [] sampleIo = true ∧
      (d.isolate sampleLimits (.spill sampleKey) sampleKey [] .corrupt sampleIo 0).files.rows =
        [⟨.spill sampleKey, 1, 64, 0⟩, ⟨.cq sampleKey, 0, 64, 0⟩] := by
  decide +kernel

end SmsPlatform.Spill
