import SmsPlatform.Spill.Cipherq
import SmsPlatform.Support.Machine

/-!
# What the quarantine keeps

Eviction, expiry and reclaiming must not destroy the only copy of bytes that could not be read
for want of a key or because of failing input.  They decide by the reason in the manifest.  The
reason is written once, when the bytes are first isolated.  So the bytes are kept as long as a
read that calls for keeping them does not meet a manifest that says otherwise.
-/

namespace SmsPlatform.Spill

open Support Table SpillDirectory List Option

/-! ## Files of a class -/

namespace SpillDirectory

section

variable {d : SpillDirectory} {name src dst : FileName} {f g : SpillFile}

theorem file?_eq_some_iff : d.file? name = some f ↔ f ∈ d.files ∧ f.name = name := find?_eq_some_iff

theorem has_eq_false_iff : d.has name = false ↔ ∀ f ∈ d.files, f.name ≠ name := by
  rw [has, isSome_eq_false_iff, isNone_iff_eq_none]
  exact find?_eq_none_iff

theorem mem_unlink_iff : g ∈ (d.unlink name).files ↔ g ∈ d.files ∧ g.name ≠ name := by
  simp [unlink]

theorem replace_of_none (h : d.file? src = none) : d.replace src dst = d := by
  simp [replace, h]

theorem mem_replace_iff (h : d.file? src = some f) : g ∈ (d.replace src dst).files ↔
      (g ∈ d.files ∧ g.name ≠ src ∧ g.name ≠ dst) ∨ g = { f with name := dst } := by
  simp only [replace, h]
  rw [mem_put_iff, mem_unlink_iff, and_assoc]

@[simp] theorem manifests_replace : (d.replace src dst).manifests = d.manifests := by
  cases h : d.file? src with
  | none => rw [replace_of_none h]
  | some f => simp only [replace, h]

end

/-- No bytes of the class `P` are lost. -/
def Keeps (P : ℕ → Prop) (d d' : SpillDirectory) : Prop :=
  ∀ f ∈ d.files, P f.artifact → ∃ g ∈ d'.files, g.artifact = f.artifact

/-- No file of the slot is of the class `P`. -/
def Free (P : ℕ → Prop) (d : SpillDirectory) (key : SlotKey) : Prop :=
  ∀ f ∈ d.files, f.name.slot? = some key → ¬ P f.artifact

/-- Slots that may be evicted hold no bytes of the class `P`. -/
structure Guarded (P : ℕ → Prop) (d : SpillDirectory) : Prop where
  free : ∀ m ∈ d.manifests, m.reason.isEvictable = true → Free P d m.key
  srcName_ne : ∀ m ∈ d.manifests, ∀ key, m.srcName ≠ .cq key

section

variable {P : ℕ → Prop} {d d' d'' : SpillDirectory} {key : SlotKey} {src dst name : FileName}

theorem Keeps.refl (P : ℕ → Prop) (d : SpillDirectory) : Keeps P d d := fun f hf _ => ⟨f, hf, rfl⟩

theorem Keeps.trans (h : Keeps P d d') (h' : Keeps P d' d'') : Keeps P d d'' := by
  intro f hf hP
  obtain ⟨g, hg, hsame⟩ := h f hf hP
  obtain ⟨g', hg', hsame'⟩ := h' g hg (hsame ▸ hP)
  exact ⟨g', hg', hsame'.trans hsame⟩

/-- Files and manifests have only been deleted. -/
structure Within (d' d : SpillDirectory) : Prop where
  files : ∀ f ∈ d'.files, f ∈ d.files
  manifests : ∀ m ∈ d'.manifests, m ∈ d.manifests

theorem Within.refl (d : SpillDirectory) : Within d d := ⟨fun _ h => h, fun _ h => h⟩

theorem Within.trans (h : Within d'' d') (h' : Within d' d) : Within d'' d :=
  ⟨fun f hf => h'.files f (h.files f hf), fun m hm => h'.manifests m (h.manifests m hm)⟩

theorem Within.file? {f : SpillFile} (h : Within d' d) (hf : d'.file? name = some f) :
    d.file? name = some f := by
  obtain ⟨hmem, hname⟩ := file?_eq_some_iff.mp hf
  exact file?_eq_some_iff.mpr ⟨h.files f hmem, hname⟩

theorem Within.has_eq_false (h : Within d' d) (hd : d.has name = false) : d'.has name = false :=
  has_eq_false_iff.mpr (fun f hf => has_eq_false_iff.mp hd f (h.files f hf))

theorem Free.within (hfree : Free P d key) (h : Within d' d) : Free P d' key :=
  fun f hf => hfree f (h.files f hf)

theorem Guarded.within (hg : Guarded P d) (h : Within d' d) : Guarded P d' where
  free := fun m hm hreason => (hg.free m (h.manifests m hm) hreason).within h
  srcName_ne := fun m hm => hg.srcName_ne m (h.manifests m hm)

/-- No bytes of the class are lost, and what is guarded stays so. -/
structure Safe (P : ℕ → Prop) (d d' : SpillDirectory) : Prop where
  keeps : Keeps P d d'
  guarded : Guarded P d'

/-- Files and manifests have been deleted, but no bytes of the class. -/
structure Prunes (P : ℕ → Prop) (d d' : SpillDirectory) : Prop where
  keeps : Keeps P d d'
  within : Within d' d

theorem Prunes.refl (P : ℕ → Prop) (d : SpillDirectory) : Prunes P d d := ⟨.refl P d, .refl d⟩

theorem Prunes.trans (h : Prunes P d d') (h' : Prunes P d' d'') : Prunes P d d'' :=
  ⟨h.keeps.trans h'.keeps, h'.within.trans h.within⟩

theorem Prunes.safe (h : Prunes P d d') (hg : Guarded P d) : Safe P d d' :=
  ⟨h.keeps, hg.within h.within⟩

/-! ## Single file operations -/

theorem unlink_within : Within (d.unlink name) d :=
  ⟨fun _ hf => (mem_unlink_iff.mp hf).1, fun _ hm => hm⟩

theorem dropEntry_within : Within (d.dropEntry key) d where
  files := fun _ hf => (mem_unlink_iff.mp (mem_unlink_iff.mp hf).1).1
  manifests := fun _ hm => (mem_keep_iff.mp hm).1

theorem unlink_keeps (h : ∀ f, d.file? name = some f → ¬ P f.artifact) :
    Keeps P d (d.unlink name) := by
  intro f hf hP
  have hne : f.name ≠ name := fun heq => h f (file?_eq_some_iff.mpr ⟨hf, heq⟩) hP
  exact ⟨f, mem_unlink_iff.mpr ⟨hf, hne⟩, rfl⟩

theorem dropEntry_prunes (h : Free P d key) : Prunes P d (d.dropEntry key) := by
  refine ⟨fun f hf hP => ?_, dropEntry_within⟩
  have hcq : f.name ≠ .cq key := fun heq => h f hf (by rw [heq]; rfl) hP
  have hwip : f.name ≠ .wip key := fun heq => h f hf (by rw [heq]; rfl) hP
  exact ⟨f, mem_unlink_iff.mpr ⟨mem_unlink_iff.mpr ⟨hf, hcq⟩, hwip⟩, rfl⟩

theorem replace_keeps (hdst : d.has dst = false) : Keeps P d (d.replace src dst) := by
  cases h : d.file? src with
  | none =>
    rw [replace_of_none h]
    exact .refl P d
  | some f =>
    intro g hg _
    by_cases hsrc : g.name = src
    · have hsame : g = f := by
        have hgsome := file?_eq_some_iff.mpr ⟨hg, hsrc⟩
        rw [h] at hgsome
        exact (Option.some.inj hgsome).symm
      exact ⟨{ f with name := dst }, (mem_replace_iff h).mpr (.inr rfl), by rw [hsame]⟩
    · have hne := has_eq_false_iff.mp hdst g hg
      exact ⟨g, (mem_replace_iff h).mpr (.inl ⟨hg, hsrc, hne⟩), rfl⟩

theorem Free.replace (hfree : Free P d key)
    (h : dst.slot? = some key → ∀ f, d.file? src = some f → ¬ P f.artifact) :
    Free P (d.replace src dst) key := by
  cases hsrc : d.file? src with
  | none => rwa [replace_of_none hsrc]
  | some f =>
    intro g hg hslot
    rcases (mem_replace_iff hsrc).mp hg with ⟨hg, -, -⟩ | rfl
    · exact hfree g hg hslot
    · exact h hslot f hsrc

theorem Guarded.replace (hg : Guarded P d)
    (h : ∀ m ∈ d.manifests, m.reason.isEvictable = true → dst.slot? = some m.key →
      ∀ f, d.file? src = some f → ¬ P f.artifact) : Guarded P (d.replace src dst) where
  free := by
    rw [manifests_replace]
    exact fun m hm hreason => (hg.free m hm hreason).replace (h m hm hreason)
  srcName_ne := by
    rw [manifests_replace]
    exact hg.srcName_ne

/-- A file that stays in its slot. -/
theorem Guarded.replace_of_slot (hg : Guarded P d) (hslot : src.slot? = dst.slot?) :
    Guarded P (d.replace src dst) := by
  refine hg.replace (fun m hm hreason hdst f hf => ?_)
  obtain ⟨hmem, hname⟩ := file?_eq_some_iff.mp hf
  exact hg.free m hm hreason f hmem (by rw [hname, hslot, hdst])

variable {m : Manifest} {written : Bool} {now : ℕ} {limits : CipherqLimits} {io : IsolateIo}

theorem Guarded.writeManifest (hg : Guarded P d)
    (hfree : m.reason.isEvictable = true → Free P d m.key)
    (hsrc : ∀ key, m.srcName ≠ .cq key) : Guarded P (d.writeManifest m) where
  free := forall_mem_put hg.free hfree
  srcName_ne := forall_mem_put hg.srcName_ne hsrc

theorem files_sealManifest : (d.sealManifest m written now).files = d.files := by
  unfold sealManifest
  split <;> rfl

theorem Guarded.sealManifest (hg : Guarded P d)
    (hfree : m.reason.isEvictable = true → Free P d m.key)
    (hsrc : ∀ key, m.srcName ≠ .cq key) : Guarded P (d.sealManifest m written now) := by
  unfold SpillDirectory.sealManifest
  split
  · exact hg.writeManifest hfree hsrc
  · exact hg

theorem keeps_of_files_eq (h : d'.files = d.files) : Keeps P d d' := by
  intro f hf _
  exact ⟨f, h ▸ hf, rfl⟩

/-! ## Eviction and expiry -/

theorem evictLoop_prunes {extraFiles extraBytes : ℕ}
    {entries : List (SpillFile × Manifest)} {files bytes : ℕ}
    (h : ∀ e ∈ entries, Free P d e.2.key) :
    Prunes P d (evictLoop limits extraFiles extraBytes entries files bytes d) := by
  induction entries generalizing files bytes d with
  | nil => exact .refl P d
  | cons e rest ih =>
    unfold evictLoop
    split
    · exact (dropEntry_prunes (h e mem_cons_self)).trans
        (ih (fun e' he' => (h e' (mem_cons_of_mem e he')).within dropEntry_within))
    · exact .refl P d

theorem enforceQuota_prunes {extraFiles extraBytes : ℕ}
    (hg : Guarded P d) : Prunes P d (d.enforceQuota limits extraFiles extraBytes) := by
  refine evictLoop_prunes (fun e he => ?_)
  rw [mem_insertionSort, mem_filter] at he
  obtain ⟨m, hm, hentry⟩ := mem_filterMap.mp he.1
  have hsame : e.2 = m := by
    split at hentry
    · obtain ⟨f, -, rfl⟩ := map_eq_some_iff.mp hentry
      rfl
    · cases hentry
  rw [hsame] at he ⊢
  exact hg.free m hm he.2

variable {entries : List Manifest}

theorem foldl_expireEntry_prunes (h : ∀ m ∈ entries, m.reason.isEvictable = true → Free P d m.key) :
    Prunes P d (entries.foldl (expireEntry limits now) d) := by
  induction entries generalizing d with
  | nil => exact .refl P d
  | cons m rest ih =>
    have hround : Prunes P d (expireEntry limits now d m) := by
      unfold expireEntry
      split
      · rename_i hdue
        simp only [Bool.and_eq_true] at hdue
        exact dropEntry_prunes (h m mem_cons_self hdue.1.2)
      · exact .refl P d
    exact hround.trans (ih (fun m' hm' hreason =>
      (h m' (mem_cons_of_mem m hm') hreason).within hround.within))

theorem expire_prunes (hg : Guarded P d) : Prunes P d (d.expire limits now) :=
  foldl_expireEntry_prunes hg.free

/-! ## Isolation and claims -/

theorem hasSlot_eq_false_iff :
    d.hasSlot key = false ↔ d.has (.cq key) = false ∧ d.has (.wip key) = false := by
  simp [hasSlot]

theorem Within.hasSlot_eq_false (h : Within d' d) (hd : d.hasSlot key = false) :
    d'.hasSlot key = false := by
  obtain ⟨hcq, hwip⟩ := hasSlot_eq_false_iff.mp hd
  exact hasSlot_eq_false_iff.mpr ⟨h.has_eq_false hcq, h.has_eq_false hwip⟩

theorem slot?_eq_some_iff : name.slot? = some key ↔ name = .cq key ∨ name = .wip key := by
  cases name <;> simp [FileName.slot?]

theorem slot?_ne_of_hasSlot_eq_false {f : SpillFile} (h : d.hasSlot key = false)
    (hf : f ∈ d.files) : f.name.slot? ≠ some key := by
  obtain ⟨hcq, hwip⟩ := hasSlot_eq_false_iff.mp h
  intro hslot
  rcases slot?_eq_some_iff.mp hslot with hname | hname
  · exact has_eq_false_iff.mp hcq f hf hname
  · exact has_eq_false_iff.mp hwip f hf hname

theorem free_of_hasSlot_eq_false (h : d.hasSlot key = false) : Free P d key :=
  fun _ hf hslot => absurd hslot (slot?_ne_of_hasSlot_eq_false h hf)

theorem claim_safe (hg : Guarded P d) (h : d.claim key = some d') : Safe P d d' := by
  unfold claim at h
  split at h
  · cases h
  rename_i hwip
  split at h
  · cases h
    exact ⟨replace_keeps (by simpa using hwip), hg.replace_of_slot rfl⟩
  · cases h

theorem reisolate_safe (hg : Guarded P d) : Safe P d (d.reisolate src key io now) := by
  have hdone : Safe P d d := ⟨.refl P d, hg⟩
  unfold reisolate
  cases hm : d.manifests.find? key with
  | none => exact hdone
  | some m =>
    obtain ⟨hmem, rfl⟩ := find?_eq_some_iff.mp hm
    have hsealed : ∀ {d₁ : SpillDirectory}, Guarded P d₁ →
        d₁.manifests = d.manifests → Keeps P d d₁ →
        Safe P d (d₁.sealManifest m io.sealWritten now) := by
      intro d₁ hg₁ hsame hkeeps
      have hmem₁ : m ∈ d₁.manifests := hsame ▸ hmem
      exact ⟨hkeeps.trans (keeps_of_files_eq files_sealManifest),
        hg₁.sealManifest (hg₁.free m hmem₁) (hg₁.srcName_ne m hmem₁)⟩
    dsimp only
    split
    · rename_i hback
      rw [Bool.and_eq_true, decide_eq_true_eq, Bool.not_eq_true'] at hback
      obtain ⟨rfl, hcq⟩ := hback
      have hkeeps : Keeps P d (d.replace (.wip m.key) (.cq m.key)) := replace_keeps hcq
      have hmoved : Guarded P (d.replace (.wip m.key) (.cq m.key)) := hg.replace_of_slot rfl
      split
      · split
        · exact ⟨hkeeps, hmoved⟩
        · exact hsealed hmoved manifests_replace hkeeps
      · exact hdone
    · split
      · exact hdone
      · exact hsealed hg rfl (.refl P d)

theorem isolateFresh_safe {reason : Reason} (hg : Guarded P d)
    (hslot : d.hasSlot key = false) (hsrc : ∀ k, src ≠ .cq k)
    (hok : reason.isEvictable = true → ∀ f, d.file? src = some f → ¬ P f.artifact) :
    Safe P d (d.isolateFresh src key reason io now) := by
  let pending := d.writeManifest ⟨key, reason, false, src, now⟩
  have hfree : Free P d key := free_of_hasSlot_eq_false hslot
  have hpending : Guarded P pending := hg.writeManifest (fun _ => hfree) hsrc
  have hcq : pending.has (.cq key) = false := (hasSlot_eq_false_iff.mp hslot).1
  unfold isolateFresh
  split
  · exact ⟨.refl P d, hg⟩
  dsimp only
  split
  · have hmoved : Guarded P (pending.replace src (.cq key)) := by
      refine hpending.replace (fun m hm hreason hdst => ?_)
      rcases mem_put_iff.mp hm with ⟨-, hne⟩ | rfl
      · exact absurd (Option.some.inj hdst).symm hne
      · exact hok hreason
    have hmovedFree : reason.isEvictable = true → Free P (pending.replace src (.cq key)) key := by
      intro hreason
      have hpendingFree : Free P pending key := hfree
      exact hpendingFree.replace (fun _ => hok hreason)
    have hkeeps : Keeps P d (pending.replace src (.cq key)) :=
      (keeps_of_files_eq rfl).trans (replace_keeps hcq)
    exact ⟨hkeeps.trans (keeps_of_files_eq files_sealManifest), hmoved.sealManifest hmovedFree hsrc⟩
  · exact ⟨keeps_of_files_eq rfl, hpending⟩

theorem isolate_safe {fresh : Text} {reason : Reason} (hg : Guarded P d) (hsrc : ∀ k, src ≠ .cq k)
    (hok : reason.isEvictable = true → ∀ f, d.file? src = some f → ¬ P f.artifact) :
    Safe P d (d.isolate limits src key fresh reason io now) := by
  unfold isolate
  dsimp only
  split
  · exact reisolate_safe hg
  rename_i hslot
  cases hfile : d.file? src with
  | none => exact ⟨.refl P d, hg⟩
  | some f =>
    dsimp only
    split
    · exact ⟨.refl P d, hg⟩
    have hprunes : Prunes P d (d.enforceQuota limits 1 f.size) := enforceQuota_prunes hg
    have hwithin := hprunes.within
    split
    · have hfree := hwithin.hasSlot_eq_false (Bool.not_eq_true _ ▸ hslot)
      have hsafe : Safe P _ ((d.enforceQuota limits 1 f.size).isolateFresh src
          (d.allocate key fresh) reason io now) :=
        isolateFresh_safe (hg.within hwithin) hfree hsrc
          (fun hreason g hgfile => hok hreason g (hwithin.file? hgfile))
      exact ⟨hprunes.keeps.trans hsafe.keeps, hsafe.guarded⟩
    · exact hprunes.safe hg

/-! ## Reclaiming -/

/-- A pending isolation that lets the bytes be evicted does not hold bytes of the class. -/
def PendingFree (P : ℕ → Prop) (d : SpillDirectory) (m : Manifest) : Prop :=
  m.reason.isEvictable = true → m.isSealed = false →
    ∀ f, d.file? m.srcName = some f → ¬ P f.artifact

/-- What is known of a manifest that was read before the loop. -/
structure Listed (P : ℕ → Prop) (d : SpillDirectory) (m : Manifest) : Prop where
  free : m.reason.isEvictable = true → Free P d m.key
  srcName_ne : ∀ key, m.srcName ≠ .cq key
  reason_eq : ∀ m' ∈ d.manifests, m'.key = m.key → m'.reason = m.reason
  pending : PendingFree P d m

theorem Listed.replace (h : Listed P d m) {k : SlotKey} (hne : k ≠ m.key) :
    Listed P (d.replace src (.cq k)) m where
  free := fun hreason => (h.free hreason).replace
    (fun hslot => absurd (Option.some.inj hslot) hne)
  srcName_ne := h.srcName_ne
  reason_eq := by
    rw [manifests_replace]
    exact h.reason_eq
  pending := by
    intro hreason hsealed f hf
    cases hsrc : d.file? src with
    | none =>
      rw [replace_of_none hsrc] at hf
      exact h.pending hreason hsealed f hf
    | some g =>
      obtain ⟨hmem, hname⟩ := file?_eq_some_iff.mp hf
      rcases (mem_replace_iff hsrc).mp hmem with ⟨hmem, -, -⟩ | rfl
      · exact h.pending hreason hsealed f (file?_eq_some_iff.mpr ⟨hmem, hname⟩)
      · exact absurd hname.symm (h.srcName_ne k)

theorem Listed.sealManifest {m₀ : Manifest} (h : Listed P d m)
    (hne : m₀.key ≠ m.key) : Listed P (d.sealManifest m₀ written now) m := by
  unfold SpillDirectory.sealManifest
  split
  · exact ⟨h.free, h.srcName_ne,
      forall_mem_put h.reason_eq (fun hkey => absurd hkey hne), h.pending⟩
  · exact h

/-- What one round does: the file of a claim goes back, or a pending isolation is completed. -/
theorem reclaimEntry_cases (limits : CipherqLimits) (now : ℕ) (d : SpillDirectory)
    (m : Manifest) (io : IsolateIo) : reclaimEntry limits now d (m, io) = d ∨
    (d.has (.cq m.key) = false ∧
      reclaimEntry limits now d (m, io) = d.replace (.wip m.key) (.cq m.key)) ∨
    (m.isSealed = false ∧ reclaimEntry limits now d (m, io) = d.sealManifest m io.sealWritten now) ∨
    (m.isSealed = false ∧ d.has (.cq m.key) = false ∧ reclaimEntry limits now d (m, io) =
      (d.replace m.srcName (.cq m.key)).sealManifest m io.sealWritten now) := by
  unfold reclaimEntry
  dsimp only
  split
  · rename_i hwip hcq
    split
    · exact .inr (.inl ⟨hcq, rfl⟩)
    · exact .inl rfl
  · split
    · exact .inl rfl
    rename_i hsealed
    have hsealed : m.isSealed = false := by simpa using hsealed
    split
    · exact .inr (.inr (.inl ⟨hsealed, rfl⟩))
    rename_i hcq
    split
    · exact .inr (.inr (.inr ⟨hsealed, by simpa using hcq, rfl⟩))
    · exact .inl rfl

theorem reclaimEntry_safe {rest : List Manifest} (hg : Guarded P d) (hm : Listed P d m)
    (hrest : ∀ m' ∈ rest, m.key ≠ m'.key ∧ Listed P d m') :
    Safe P d (reclaimEntry limits now d (m, io)) ∧
    ∀ m' ∈ rest, Listed P (reclaimEntry limits now d (m, io)) m' := by
  rcases reclaimEntry_cases limits now d m io with h | ⟨hcq, h⟩ | ⟨hsealed, h⟩ | ⟨hsealed, hcq, h⟩
  · rw [h]
    exact ⟨⟨.refl P d, hg⟩, fun m' hm' => (hrest m' hm').2⟩
  · rw [h]
    exact ⟨⟨replace_keeps hcq, hg.replace_of_slot rfl⟩,
      fun m' hm' => (hrest m' hm').2.replace (hrest m' hm').1⟩
  · rw [h]
    exact ⟨⟨keeps_of_files_eq files_sealManifest, hg.sealManifest hm.free hm.srcName_ne⟩,
      fun m' hm' => (hrest m' hm').2.sealManifest (hrest m' hm').1⟩
  · rw [h]
    have hmoved : Guarded P (d.replace m.srcName (.cq m.key)) := by
      refine hg.replace (fun m' hm' hreason hslot => ?_)
      have hsame := hm.reason_eq m' hm' (Option.some.inj hslot).symm
      exact hm.pending (hsame ▸ hreason) hsealed
    have hfree : m.reason.isEvictable = true → Free P (d.replace m.srcName (.cq m.key)) m.key :=
      fun hreason => (hm.free hreason).replace (fun _ => hm.pending hreason hsealed)
    refine ⟨⟨(replace_keeps hcq).trans (keeps_of_files_eq files_sealManifest),
      hmoved.sealManifest hfree hm.srcName_ne⟩, fun m' hm' => ?_⟩
    exact ((hrest m' hm').2.replace (hrest m' hm').1).sealManifest (hrest m' hm').1

variable {io : SlotKey → IsolateIo}

theorem foldl_reclaimEntry_safe (hg : Guarded P d) (hnodup : (entries.map Manifest.key).Nodup)
    (h : ∀ m ∈ entries, Listed P d m) :
    Safe P d ((entries.map fun m => (m, io m.key)).foldl (reclaimEntry limits now) d) := by
  induction entries generalizing d with
  | nil => exact ⟨.refl P d, hg⟩
  | cons m rest ih =>
    obtain ⟨hfresh, hnodup⟩ := nodup_cons.mp hnodup
    have hrest : ∀ m' ∈ rest, m.key ≠ m'.key ∧ Listed P d m' := fun m' hm' =>
      ⟨fun heq => hfresh (heq ▸ mem_map_of_mem hm'), h m' (mem_cons_of_mem m hm')⟩
    obtain ⟨hsafe, hlisted⟩ := reclaimEntry_safe hg (h m mem_cons_self) hrest
    have hafter := ih hsafe.guarded hnodup hlisted
    exact ⟨hsafe.keeps.trans hafter.keeps, hafter.guarded⟩

theorem reclaimPending_safe (hg : Guarded P d) (hpending : ∀ m ∈ d.manifests, PendingFree P d m) :
    Safe P d (d.reclaimPending limits now io) := by
  refine foldl_reclaimEntry_safe hg d.manifests.nodup (fun m hm => ?_)
  exact ⟨hg.free m hm, hg.srcName_ne m hm,
    fun m' hm' hkey => by rw [eq_of_key_eq hm' hm hkey], hpending m hm⟩

theorem reclaimManifestOnly_within : Within d.reclaimManifestOnly d :=
  ⟨fun _ hf => hf, fun _ hm => (mem_keep_iff.mp hm).1⟩

theorem removeStream_within : Within (d.removeStream key) d :=
  unlink_within.trans (unlink_within.trans unlink_within)

theorem removeStream_keeps (h : ∀ name ∈ [FileName.streamTmp key, .stream key, .legacyStream key],
      ∀ f, d.file? name = some f → ¬ P f.artifact) : Keeps P d (d.removeStream key) := by
  intro f hf hP
  have hne : ∀ name ∈ [FileName.streamTmp key, .stream key, .legacyStream key], f.name ≠ name :=
    fun name hname heq => h name hname f (file?_eq_some_iff.mpr ⟨hf, heq⟩) hP
  exact ⟨f, by simpa [removeStream, mem_unlink_iff, hf, and_assoc] using hne, rfl⟩

end

end SpillDirectory

/-! ## Runs -/

/-- How a read of a file ends. -/
inductive ReadOutcome
  | recovered
  | provablyEmpty
  | failed (reason : Reason)
  deriving DecidableEq

/-- The bytes may become readable. -/
def ReadOutcome.retains : ReadOutcome → Bool
  | .failed reason => !reason.isEvictable
  | .recovered | .provablyEmpty => false

/-- The directory and, for every artifact, how its last read ended. -/
structure SpillState where
  dir : SpillDirectory
  lastRead : ℕ → Option ReadOutcome

inductive SpillAction
  /-- An active file is written. -/
  | write (file : SpillFile)
  | read (name : FileName) (outcome : ReadOutcome)
  | claim (key : SlotKey)
  | isolate (path : FileName) (key : SlotKey) (fresh : Text) (reason : Reason) (io : IsolateIo)
      (now : ℕ)
  | enforceQuota (extraFiles extraBytes : ℕ)
  | expire (now : ℕ)
  | reclaimPending (now : ℕ) (io : SlotKey → IsolateIo)
  | reclaimManifestOnly
  /-- The stream is removed because its file `name` is provably empty. -/
  | removeStream (name : FileName) (key : SlotKey)
  | releaseStream (key : SlotKey)
  /-- Bytes that have been stored are removed, from a slot or from the active files. -/
  | removeClaimed (key : SlotKey)
  | removeStored (name : FileName)

namespace SpillState

/-- The last read of the artifact ended with a missing key or failing input. -/
def retains (s : SpillState) (artifact : ℕ) : Bool :=
  (s.lastRead artifact).any ReadOutcome.retains

def onDir (s : SpillState) (d : SpillDirectory) : Option SpillState := some { s with dir := d }

def next (limits : CipherqLimits) (s : SpillState) : SpillAction → Option SpillState
  | .write file =>
    if file.name.slot?.isSome then none
    else s.onDir { s.dir with files := s.dir.files.put file }
  | .read name outcome =>
    (s.dir.file? name).map fun f =>
      { s with lastRead := Function.update s.lastRead f.artifact (some outcome) }
  | .claim key => (s.dir.claim key).bind s.onDir
  | .isolate path key fresh reason io now =>
    if path.isCq then none
    else s.onDir (s.dir.isolate limits path key fresh reason io now)
  | .enforceQuota extraFiles extraBytes =>
    s.onDir (s.dir.enforceQuota limits extraFiles extraBytes)
  | .expire now => s.onDir (s.dir.expire limits now)
  | .reclaimPending now io => s.onDir (s.dir.reclaimPending limits now io)
  | .reclaimManifestOnly => s.onDir s.dir.reclaimManifestOnly
  | .removeStream name key =>
    if (s.dir.file? name).any fun f => s.lastRead f.artifact = some .provablyEmpty then
      s.onDir (s.dir.removeStream key)
    else none
  | .releaseStream key => s.onDir (s.dir.releaseStream key)
  | .removeClaimed key => s.onDir (s.dir.removeClaimed key)
  | .removeStored name => s.onDir (s.dir.unlink name)

end SpillState

/-- An empty directory of which nothing has been read. -/
def SpillState.start : SpillState where
  dir := ⟨Table.empty _, Table.empty _⟩
  lastRead := fun _ => none

def quarantine (limits : CipherqLimits) : Machine SpillState SpillAction where
  init := fun s => s = .start
  next := SpillState.next limits

/-- Steps that must not destroy bytes: all but those that write a file or remove what has been
stored. -/
def SpillAction.mustKeep : SpillAction → Bool
  | .write _ | .removeClaimed _ | .removeStored _ => false
  | _ => true

namespace SpillState

/-- The file with this name is to be kept. -/
def retainsAt (s : SpillState) (name : FileName) : Bool :=
  (s.dir.file? name).any fun f => s.retains f.artifact

/-- A copy of the artifact lies in a slot that may be evicted. -/
def inEvictableSlot (s : SpillState) (artifact : ℕ) : Bool :=
  s.dir.manifests.rows.any fun m => m.reason.isEvictable &&
    s.dir.files.rows.any fun f => decide (f.artifact = artifact ∧ f.name.slot? = some m.key)

/-- A missing key or failing input is met only where no manifest lets the bytes be evicted,
bytes whose last read ended so are not isolated for another reason, and a stream that is removed
or released has no other file. -/
def regular (s : SpillState) : SpillAction → Bool
  | .read name outcome =>
    !outcome.retains || (s.dir.file? name).all fun f => !s.inEvictableSlot f.artifact
  | .isolate path _ _ reason _ _ => !reason.isEvictable || !s.retainsAt path
  | .reclaimPending _ _ =>
    s.dir.manifests.rows.all fun m =>
      !m.reason.isEvictable || m.isSealed || !s.retainsAt m.srcName
  | .removeStream name key =>
    [.streamTmp key, .stream key, .legacyStream key].all fun other =>
      decide (other = name) || !s.dir.has other
  | .releaseStream key => !s.dir.has (.legacyStream key)
  | _ => true

/-- The bytes that have to be kept. -/
def Retained (s : SpillState) (artifact : ℕ) : Prop := s.retains artifact = true

variable {s : SpillState} {f : SpillFile}

theorem not_retained_of_retainsAt {name : FileName}
    (h : s.retainsAt name = false) (hf : s.dir.file? name = some f) : ¬ s.Retained f.artifact := by
  rw [retainsAt, hf, any_some] at h
  simp [Retained, h]

theorem free_of_inEvictableSlot {artifact : ℕ}
    (h : s.inEvictableSlot artifact = false) {m : Manifest} (hm : m ∈ s.dir.manifests)
    (hreason : m.reason.isEvictable = true) (hf : f ∈ s.dir.files)
    (hslot : f.name.slot? = some m.key) : f.artifact ≠ artifact := by
  intro hsame
  have hany : s.inEvictableSlot artifact = true := by
    refine any_eq_true.mpr ⟨m, hm, ?_⟩
    rw [hreason, Bool.true_and]
    exact any_eq_true.mpr ⟨f, hf, decide_eq_true ⟨hsame, hslot⟩⟩
  rw [h] at hany
  cases hany

/-- After a read, the bytes to be kept are those of before and those read. -/
theorem guarded_read {outcome : ReadOutcome} (hg : s.dir.Guarded s.Retained)
    (hok : outcome.retains = true → s.inEvictableSlot f.artifact = false) : s.dir.Guarded
      (Retained { s with lastRead := Function.update s.lastRead f.artifact (some outcome) }) where
  free := by
    intro m hm hreason g hgmem hslot hretained
    by_cases hsame : g.artifact = f.artifact
    · have houtcome : outcome.retains = true := by
        simpa [Retained, retains, hsame] using hretained
      exact free_of_inEvictableSlot (hok houtcome) hm hreason hgmem hslot hsame
    · refine hg.free m hm hreason g hgmem hslot ?_
      simpa [Retained, retains, hsame] using hretained
  srcName_ne := hg.srcName_ne

variable {limits : CipherqLimits}

/-- One step: a regular step keeps the bytes, and keeps them out of the slots that may be
evicted. -/
theorem next_keeps {t : SpillState} {a : SpillAction}
    (hg : s.dir.Guarded s.Retained) (hok : s.regular a = true) (h : s.next limits a = some t) :
    t.dir.Guarded t.Retained ∧ (a.mustKeep = true → s.dir.Keeps s.Retained t.dir) := by
  have hdone : ∀ {d : SpillDirectory}, s.dir.Safe s.Retained d →
      d.Guarded s.Retained ∧ (a.mustKeep = true → s.dir.Keeps s.Retained d) :=
    fun hsafe => ⟨hsafe.guarded, fun _ => hsafe.keeps⟩
  cases a with
  | write file =>
    simp only [next] at h
    split at h
    · cases h
    rename_i hslot
    cases h
    refine ⟨⟨fun m hm hreason f hf hfslot => ?_, hg.srcName_ne⟩, nofun⟩
    rcases mem_put_iff.mp hf with ⟨hf, -⟩ | rfl
    · exact hg.free m hm hreason f hf hfslot
    · rw [hfslot] at hslot
      exact absurd rfl hslot
  | read name outcome =>
    obtain ⟨f, hf, rfl⟩ := map_eq_some_iff.mp h
    refine ⟨guarded_read hg (fun houtcome => ?_), fun _ => .refl _ _⟩
    simpa [regular, houtcome, hf] using hok
  | claim key =>
    obtain ⟨d, hd, ⟨⟩⟩ := bind_eq_some_iff.mp h
    exact hdone (claim_safe hg hd)
  | isolate path key fresh reason io now =>
    have hpath : ∀ k, path ≠ .cq k := by
      rintro k rfl
      cases h
    simp only [next] at h
    split at h
    · cases h
    cases h
    have hread : reason.isEvictable = true → ∀ f, s.dir.file? path = some f →
        ¬ s.Retained f.artifact := by
      intro hreason f hf
      refine not_retained_of_retainsAt ?_ hf
      simpa [regular, hreason] using hok
    exact hdone (isolate_safe hg hpath hread)
  | enforceQuota extraFiles extraBytes =>
    cases h
    exact hdone ((enforceQuota_prunes hg).safe hg)
  | expire now =>
    cases h
    exact hdone ((expire_prunes hg).safe hg)
  | reclaimPending now io =>
    cases h
    have hpending : ∀ m ∈ s.dir.manifests, SpillDirectory.PendingFree s.Retained s.dir m := by
      intro m hm hreason hsealed f hf
      have hm' := all_eq_true.mp hok m hm
      refine not_retained_of_retainsAt ?_ hf
      simpa [hreason, hsealed] using hm'
    exact hdone (reclaimPending_safe hg hpending)
  | reclaimManifestOnly =>
    cases h
    exact ⟨hg.within reclaimManifestOnly_within, fun _ => keeps_of_files_eq rfl⟩
  | removeStream name key =>
    obtain ⟨hempty, ⟨⟩⟩ := Option.ite_none_right_eq_some.mp h
    refine ⟨hg.within removeStream_within, fun _ => removeStream_keeps (fun other hmem f hf => ?_)⟩
    have hother : other = name ∨ s.dir.has other = false := by
      simpa using all_eq_true.mp hok other hmem
    rcases hother with rfl | hother
    · have hread : s.lastRead f.artifact = some .provablyEmpty := by simpa [hf] using hempty
      simp [Retained, retains, hread, ReadOutcome.retains]
    · simp [has, hf] at hother
  | releaseStream key =>
    cases h
    refine ⟨hg.within unlink_within, fun _ => unlink_keeps (fun f hf => ?_)⟩
    simp [regular, has, hf] at hok
  | removeClaimed key =>
    cases h
    exact ⟨hg.within dropEntry_within, nofun⟩
  | removeStored name =>
    cases h
    exact ⟨hg.within unlink_within, nofun⟩

theorem guarded_of_reachable
    (h : (quarantine limits).ReachableWhere (fun s a => s.regular a = true) s) :
    s.dir.Guarded s.Retained := by
  refine Machine.ReachableWhere.invariant (I := fun s => s.dir.Guarded s.Retained) ?_ ?_ h
  · rintro _ rfl
    exact ⟨fun m hm => absurd hm (not_mem_empty m), fun m hm =>
      absurd hm (not_mem_empty m)⟩
  · intro s a t hg hok hnext
    exact (next_keeps hg hok hnext).1

end SpillState

/-! ## The reason of the first isolation -/

def sampleLimits : CipherqLimits where
  maxFiles := 8
  maxBytes := 1000
  retention := 100
  minAge := 10

def sampleKey : SlotKey := (.report, zeroId.text)

def sampleIo : IsolateIo := ⟨true, true, true, true⟩

/-- A spill file is isolated for the reason `first` and claimed, its key is missing when it is
read again, and it is put back. -/
def isolatedTwice (first : Reason) : List SpillAction :=
  [.write ⟨.spill sampleKey, 0, 64, 0⟩, .read (.spill sampleKey) (.failed first),
    .isolate (.spill sampleKey) sampleKey [] first sampleIo 0,
    .claim sampleKey,
    .read (.wip sampleKey) (.failed .keyUnavailable),
    .isolate (.wip sampleKey) sampleKey [] .keyUnavailable sampleIo 0]

/-- Along every run of regular steps, bytes whose last read ended with a missing key or failing
input survive every step of isolation, eviction, expiry and reclaiming. -/
theorem retained_bytes_survive {limits : CipherqLimits} {s t : SpillState} {a : SpillAction}
    (hs : (quarantine limits).ReachableWhere (fun s a => s.regular a = true) s)
    (hok : s.regular a = true) (hkeep : a.mustKeep = true)
    (h : (quarantine limits).next s a = some t) {f : SpillFile} (hf : f ∈ s.dir.files)
    (hretained : s.retains f.artifact = true) : ∃ g ∈ t.dir.files, g.artifact = f.artifact :=
  (SpillState.next_keeps (SpillState.guarded_of_reachable hs) hok h).2 hkeep f hf hretained

theorem retained_bytes_survive_expiry :
    ∃ s t : SpillState, (quarantine sampleLimits).next s (.expire 1000) = some t ∧
      s.retains 0 = true ∧ ∃ g ∈ t.dir.files, g.artifact = 0 := by
  have hrun : ∃ s, (quarantine sampleLimits).runWhere (fun s a => s.regular a = true) .start
      (isolatedTwice .transientIo) = some s ∧ s.retains 0 = true ∧
      ⟨.cq sampleKey, 0, 64, 0⟩ ∈ s.dir.files.rows := by
    refine ⟨_, rfl, ?_, ?_⟩ <;> decide +kernel
  obtain ⟨s, hrun, hretained, hfile⟩ := hrun
  have hs : (quarantine sampleLimits).ReachableWhere (fun s a => s.regular a = true) s :=
    (Machine.ReachableWhere.init rfl).runWhere hrun
  obtain ⟨t, hnext⟩ : ∃ t, (quarantine sampleLimits).next s (.expire 1000) = some t := ⟨_, rfl⟩
  exact ⟨s, t, hnext, hretained, retained_bytes_survive hs rfl rfl hnext hfile hretained⟩

/-- The manifest keeps the reason of the first isolation, so that the bytes expire although
their key was missing when they were last read. -/
theorem expiry_destroys_retained_bytes :
    ∃ s t : SpillState, (quarantine sampleLimits).Reachable s ∧ s.retains 0 = true ∧
      s.dir.files.rows.map SpillFile.artifact = [0] ∧
      (quarantine sampleLimits).next s (.expire 1000) = some t ∧ t.dir.files.rows = [] := by
  have hrun : ∃ s, (quarantine sampleLimits).run .start (isolatedTwice .authFailed) = some s ∧
      s.retains 0 = true ∧ s.dir.files.rows.map SpillFile.artifact = [0] ∧
      (s.dir.expire sampleLimits 1000).files.rows = [] := by
    refine ⟨_, rfl, ?_, ?_, ?_⟩ <;> decide +kernel
  obtain ⟨s, hrun, hretained, hfiles, hexpired⟩ := hrun
  exact ⟨s, _, (Machine.Reachable.init rfl).run hrun, hretained, hfiles, rfl, hexpired⟩

end SmsPlatform.Spill
