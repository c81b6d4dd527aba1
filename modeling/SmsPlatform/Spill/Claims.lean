import SmsPlatform.Spill.Isolation

/-!
# Claims on the quarantine

A round of `iter_cipherq_recoverable` claims a sealed entry by renaming its file.  If the round
does not deliver the content, the file is put back at once or by a later reclaim, which takes
the age of the file for the age of the claim.  Between the rounds files are written, isolated,
evicted and reclaimed as usual.
-/

namespace SmsPlatform.Spill

open Support Table SpillDirectory List Option

/-- The name of the file of a slot, which may be claimed. -/
@[simp]
def payloadName (key : SlotKey) : Bool → FileName
  | true => .wip key
  | false => .cq key

/-- The file of a claimed entry is put back: it is old enough and can be renamed. -/
def CipherqLimits.putsBack (limits : CipherqLimits) (now : ℕ) (f : SpillFile) (io : IsolateIo) :
    Bool :=
  decide (limits.minAge ≤ now - f.mtime) && io.renamed

namespace SpillDirectory

/-- The eviction does not reach the entry: its reason forbids it or nothing is over a limit. -/
def quotaSpares (d : SpillDirectory) (limits : CipherqLimits) (key : SlotKey)
    (extraFiles extraBytes : ℕ) : Bool :=
  ((d.manifests.find? key).all fun m => !m.reason.isEvictable) ||
    decide (d.sealedEntries.length + extraFiles ≤ limits.maxFiles ∧
      (d.sealedEntries.map fun e => e.1.size).sum + extraBytes ≤ limits.maxBytes)

/-- The expiry does not reach the entry: its reason forbids it or it is too young. -/
def expirySpares (d : SpillDirectory) (limits : CipherqLimits) (key : SlotKey) (now : ℕ) : Bool :=
  (d.manifests.find? key).all fun m =>
    !m.reason.isEvictable || decide (now - d.agedMtime m < limits.retention)

/-- A sealed entry with one file, which no other manifest names as its source. -/
structure Stored (d : SpillDirectory) (key : SlotKey) (f : SpillFile) (claimed : Bool) : Prop where
  manifest : ∃ m, d.manifests.find? key = some m ∧ m.isSealed = true
  files : ∀ c, d.file? (payloadName key c) =
    if c = claimed then some { f with name := payloadName key c } else none
  source : ∀ m ∈ d.manifests, m.srcName.slot? ≠ some key

section

variable {d : SpillDirectory} {key k : SlotKey} {f g : SpillFile} {claimed : Bool} {m : Manifest}
  {src dst name : FileName} {now : ℕ} {io : IsolateIo}

theorem slot?_payloadName : (payloadName key claimed).slot? = some key := by
  cases claimed <;> rfl

theorem file?_replace (h : d.file? src = some g) : (d.replace src dst).file? name =
    if name = dst then some { g with name := dst } else if name = src then none
    else d.file? name := by
  simp only [replace, h]
  split
  · subst name
    exact find?_put_self _ _
  · rename_i hdst
    refine (find?_put_of_ne hdst).trans ?_
    split
    · exact find?_keep_of_false (fun r hr => decide_eq_false (not_not_intro (by simp_all)))
    · exact find?_keep_of_true (fun r hr => decide_eq_true (by simp_all))

section

variable (h : d.Stored key f claimed) (limits : CipherqLimits)
include h

theorem Stored.congr {d' : SpillDirectory}
    (hmanifest : d'.manifests.find? key = d.manifests.find? key)
    (hfiles : ∀ c, d'.file? (payloadName key c) = d.file? (payloadName key c))
    (hsource : ∀ m ∈ d'.manifests, m.srcName.slot? ≠ some key) : d'.Stored key f claimed :=
  ⟨hmanifest ▸ h.manifest, fun c => (hfiles c).trans (h.files c), hsource⟩

theorem Stored.hasSlot : d.hasSlot key = true := by
  have hfile := h.files claimed
  rw [if_pos rfl] at hfile
  cases claimed <;> simp_all [SpillDirectory.hasSlot, has]

theorem Stored.agedMtime (hm : m.key = key) :
    d.agedMtime m = if claimed then m.mtime else f.mtime := by
  have hcq := h.files false
  rw [SpillDirectory.agedMtime, hm]
  cases claimed <;> simp_all

theorem Stored.replace (hsrc : src.slot? ≠ some key) (hdst : dst.slot? ≠ some key) :
    (d.replace src dst).Stored key f claimed := by
  cases hfile : d.file? src with
  | none =>
    rw [replace_of_none hfile]
    exact h
  | some g =>
    refine h.congr (by rw [manifests_replace]) (fun c => ?_) (manifests_replace.symm ▸ h.source)
    rw [file?_replace hfile, if_neg, if_neg]
    · exact fun heq => hsrc (heq ▸ slot?_payloadName)
    · exact fun heq => hdst (heq ▸ slot?_payloadName)

theorem Stored.unlink (hname : name.slot? ≠ some key) : (d.unlink name).Stored key f claimed :=
  h.congr rfl (fun _ => find?_keep_of_true fun _ hr =>
    decide_eq_true fun heq => hname (heq ▸ hr ▸ slot?_payloadName)) h.source

theorem Stored.write (hslot : g.name.slot? = none) :
    ({ d with files := d.files.put g } : SpillDirectory).Stored key f claimed :=
  h.congr rfl (fun _ => find?_put_of_ne fun heq => by
    rw [← heq, slot?_payloadName] at hslot
    cases hslot) h.source

/-- A file is claimed or put back, of this entry or of another. -/
theorem Stored.rename {c : Bool} (hfree : d.file? (payloadName k !c) = none) :
    (d.replace (payloadName k c) (payloadName k !c)).Stored key f
      (claimed ^^ decide (k = key)) := by
  by_cases hk : k = key
  · subst hk
    obtain rfl : c = claimed := by
      rw [h.files] at hfree
      cases c <;> cases claimed <;> simp_all
    refine ⟨manifests_replace.symm ▸ h.manifest, fun c' => ?_, manifests_replace.symm ▸ h.source⟩
    rw [file?_replace ((h.files c).trans (if_pos rfl))]
    cases c <;> cases c' <;> simp
  · have hslot : ∀ c, (payloadName k c).slot? ≠ some key := by
      intro c
      rw [slot?_payloadName]
      exact fun heq => hk (some.inj heq)
    simpa [hk] using h.replace (hslot c) (hslot !c)

theorem Stored.writeManifest (hsealed : m.key = key → m.isSealed = true)
    (hm : m.srcName.slot? ≠ some key) : (d.writeManifest m).Stored key f claimed := by
  refine ⟨?_, h.files, forall_mem_put h.source hm⟩
  by_cases hkey : key = m.key
  · subst hkey
    exact ⟨m, find?_put_self d.manifests m, hsealed rfl⟩
  · exact (find?_put_of_ne (t := d.manifests) (r := m) hkey).symm ▸ h.manifest

theorem Stored.sealManifest {written : Bool} (hm : m.srcName.slot? ≠ some key) :
    (d.sealManifest m written now).Stored key f claimed := by
  unfold SpillDirectory.sealManifest
  split
  · exact h.writeManifest (fun _ => rfl) hm
  · exact h

/-- A reclaim puts the file of the entry back if it is old enough. -/
theorem Stored.reclaimEntry (now : ℕ) (io : IsolateIo) (hm : m.srcName.slot? ≠ some key)
    (hsealed : m.key = key → m.isSealed = true) : (reclaimEntry limits now d (m, io)).Stored key f
      (claimed && !(decide (m.key = key) && limits.putsBack now f io)) := by
  by_cases hk : m.key = key
  · subst hk
    have hwip := h.files true
    have hcq := h.files false
    simp only [payloadName] at hwip hcq
    cases claimed with
    | true =>
      have hback := h.rename (c := true) hcq
      by_cases hold : limits.minAge ≤ now - f.mtime ∧ io.renamed = true
      · simpa [SpillDirectory.reclaimEntry, CipherqLimits.putsBack, has, hwip, hcq,
        hold] using hback
      · have hstay : limits.putsBack now f io = false := by
          simpa [CipherqLimits.putsBack] using hold
        simpa [SpillDirectory.reclaimEntry, has, hwip, hcq, hold, hstay] using h
    | false => simpa [SpillDirectory.reclaimEntry, hwip, hsealed rfl] using h
  · rw [decide_eq_false hk, Bool.false_and, Bool.not_false, Bool.and_true]
    have hcq : FileName.slot? (.cq m.key) ≠ some key := fun heq => hk (some.inj heq)
    rcases reclaimEntry_cases limits now d m io with heq | ⟨-, heq⟩ | ⟨-, heq⟩ | ⟨-, -, heq⟩ <;>
      rw [heq]
    · exact h
    · exact h.replace hcq hcq
    · exact h.sealManifest hm
    · exact (h.replace hm hcq).sealManifest hm

theorem Stored.foldl_reclaimEntry (now : ℕ) (io : SlotKey → IsolateIo) (entries : List Manifest)
    (hm : ∀ m ∈ entries, m.srcName.slot? ≠ some key ∧ (m.key = key → m.isSealed = true)) :
    ((entries.map fun m => (m, io m.key)).foldl (SpillDirectory.reclaimEntry limits now) d).Stored
      key f (claimed && !(decide (key ∈ entries.map Manifest.key) &&
        limits.putsBack now f (io key))) := by
  induction entries generalizing d claimed with
  | nil => simpa using h
  | cons m rest ih =>
    obtain ⟨hsrc, hsealed⟩ := hm m mem_cons_self
    have hstep := ih (h.reclaimEntry limits now (io m.key) hsrc hsealed)
      (fun m' hm' => hm m' (mem_cons_of_mem m hm'))
    rw [map_cons, foldl_cons]
    convert hstep using 1
    by_cases hk : m.key = key
    · subst hk
      cases limits.putsBack now f (io m.key) <;> simp
    · simp [hk, Ne.symm hk]

theorem Stored.reclaimPending (now : ℕ) (io : SlotKey → IsolateIo) :
    (d.reclaimPending limits now io).Stored key f (claimed && !limits.putsBack now f (io key)) := by
  obtain ⟨m, hm, hsealed⟩ := h.manifest
  obtain ⟨hmem, hkey⟩ := find?_eq_some_iff.mp hm
  have hrows : key ∈ d.manifests.rows.map Manifest.key := hkey ▸ mem_map_of_mem hmem
  have hfold := h.foldl_reclaimEntry limits now io d.manifests.rows
    (fun m' hm' => ⟨h.source m' hm', fun hkey' => ?_⟩)
  · rwa [decide_eq_true hrows, Bool.true_and] at hfold
  · rwa [eq_of_key_eq hm' hmem (hkey'.trans hkey.symm)]

theorem Stored.claim {d' : SpillDirectory} (hd : d.claim k = some d') :
    d'.Stored key f (claimed ^^ decide (k = key)) := by
  unfold SpillDirectory.claim at hd
  split at hd
  · cases hd
  rename_i hwip
  split at hd
  · cases hd
    exact h.rename (c := false) (by simpa [has] using hwip)
  · cases hd

theorem Stored.dropEntry (hk : k ≠ key) : (d.dropEntry k).Stored key f claimed := by
  have hne : ∀ c, (payloadName k c).slot? ≠ some key := fun c heq =>
    hk (some.inj (slot?_payloadName.symm.trans heq))
  have hfiles := (h.unlink (hne false)).unlink (hne true)
  exact hfiles.congr (find?_keep_of_true fun r hr => decide_eq_true (hr ▸ hk.symm)) (fun _ => rfl)
    (fun m hm => h.source m (dropEntry_within.manifests m hm))

theorem Stored.evictLoop {extraFiles extraBytes files bytes : ℕ}
    {entries : List (SpillFile × Manifest)} (hentries : ∀ e ∈ entries, e.2.key ≠ key) :
    (evictLoop limits extraFiles extraBytes entries files bytes d).Stored key f claimed := by
  induction entries generalizing d files bytes with
  | nil => exact h
  | cons e rest ih =>
    unfold SpillDirectory.evictLoop
    split
    · exact ih (h.dropEntry (hentries e mem_cons_self))
        (fun e' he' => hentries e' (mem_cons_of_mem e he'))
    · exact h

theorem Stored.enforceQuota {extraFiles extraBytes : ℕ}
    (hquota : d.quotaSpares limits key extraFiles extraBytes = true) :
    (d.enforceQuota limits extraFiles extraBytes).Stored key f claimed := by
  unfold SpillDirectory.enforceQuota
  simp only [quotaSpares, Bool.or_eq_true, decide_eq_true_eq] at hquota
  rcases hquota with hreason | hfits
  · refine h.evictLoop limits fun e he hkey => ?_
    obtain ⟨he, hevictable⟩ :=
      mem_filter.mp ((mem_insertionSort (fun a b => evictsBefore a b = true)).mp he)
    obtain ⟨m, hm, hentry⟩ := mem_filterMap.mp he
    have hm' : d.manifests.find? key = some e.2 := by
      split at hentry
      · obtain ⟨g, -, rfl⟩ := map_eq_some_iff.mp hentry
        exact find?_eq_some_iff.mpr ⟨hm, hkey⟩
      · cases hentry
    rw [hm', all_some, hevictable] at hreason
    cases hreason
  · -- Nothing is over a limit, so that the loop stops at once.
    have hstop : ∀ entries, SpillDirectory.evictLoop limits extraFiles extraBytes entries
        d.sealedEntries.length (d.sealedEntries.map fun e => e.1.size).sum d = d := by
      rintro (_ | ⟨e, rest⟩)
      · rfl
      · rw [SpillDirectory.evictLoop, if_neg (by omega)]
    rwa [hstop]

theorem Stored.expire (hexpire : d.expirySpares limits key now = true) :
    (d.expire limits now).Stored key f claimed := by
  have hfold : ∀ entries : List Manifest, (∀ m ∈ entries, m ∈ d.manifests) →
      ∀ d' : SpillDirectory, d'.Stored key f claimed →
        (entries.foldl (expireEntry limits now) d').Stored key f claimed := by
    intro entries
    induction entries with
    | nil => exact fun _ _ h' => h'
    | cons m rest ih =>
      intro hmem d' h'
      refine ih (fun m' hm' => hmem m' (mem_cons_of_mem m hm')) _ ?_
      unfold expireEntry
      split
      · rename_i hdrop
        refine h'.dropEntry fun hkey => ?_
        have hm : d.manifests.find? key = some m :=
          find?_eq_some_iff.mpr ⟨hmem m mem_cons_self, hkey⟩
        rw [h'.agedMtime hkey, ← h.agedMtime hkey] at hdrop
        simp only [Bool.and_eq_true, decide_eq_true_eq] at hdrop
        simp only [expirySpares, hm, all_some, hdrop.1.2, Bool.not_true, Bool.false_or,
          decide_eq_true_eq] at hexpire
        omega
      · exact h'
  exact hfold _ (fun _ hm => hm) d h

theorem Stored.reclaimManifestOnly : d.reclaimManifestOnly.Stored key f claimed :=
  h.congr (find?_keep_of_true fun m hm => by rw [hm, h.hasSlot, Bool.true_or]) (fun _ => rfl)
    (fun m hm => h.source m (reclaimManifestOnly_within.manifests m hm))

/-- An isolation puts a file back only if it is given that file. -/
theorem Stored.reisolate : ∃ c, (d.reisolate name k io now).Stored key f c ∧
    (name ≠ .wip key → c = claimed) := by
  unfold SpillDirectory.reisolate
  cases hm : d.manifests.find? k with
  | none => exact ⟨_, h, fun _ => rfl⟩
  | some m =>
    have hsrc := h.source m (find?_eq_some_iff.mp hm).1
    dsimp only
    split
    · rename_i hback
      obtain ⟨rfl, hcq⟩ : name = .wip k ∧ d.file? (.cq k) = none := by simpa [has] using hback
      have hmoved := h.rename (c := true) hcq
      have hother : FileName.wip k ≠ .wip key → (claimed ^^ decide (k = key)) = claimed := by
        intro hne
        rw [decide_eq_false (fun heq : k = key => hne (heq ▸ rfl)), Bool.xor_false]
      split
      · split
        · exact ⟨_, hmoved, hother⟩
        · exact ⟨_, hmoved.sealManifest hsrc, hother⟩
      · exact ⟨_, h, fun _ => rfl⟩
    · split
      · exact ⟨_, h, fun _ => rfl⟩
      · exact ⟨_, h.sealManifest hsrc, fun _ => rfl⟩

theorem Stored.isolateFresh {reason : Reason} (hname : name.slot? ≠ some key) (hk : k ≠ key) :
    (d.isolateFresh name k reason io now).Stored key f claimed := by
  have hcq : FileName.slot? (.cq k) ≠ some key := fun heq => hk (some.inj heq)
  have hpending := h.writeManifest (m := ⟨k, reason, false, name, now⟩) (absurd · hk) hname
  unfold SpillDirectory.isolateFresh
  split
  · exact h
  · dsimp only
    split
    · exact (hpending.replace hname hcq).sealManifest hname
    · exact hpending

/-- A file of a slot is isolated for its own slot. -/
theorem Stored.isolate {fresh : Text} (reason : Reason) (io : IsolateIo) (now : ℕ)
    (hown : ∀ own ∈ name.slot?, own = k)
    (hquota : d.hasSlot (d.allocate k fresh) = true ∨
      ∀ g, d.file? name = some g → d.quotaSpares limits key 1 g.size = true) :
    ∃ c, (d.isolate limits name k fresh reason io now).Stored key f c ∧
      (name ≠ .wip key → c = claimed) := by
  obtain ⟨m, hm, -⟩ := h.manifest
  unfold SpillDirectory.isolate
  dsimp only
  split
  · exact h.reisolate
  · rename_i hslot
    have hk : d.allocate k fresh ≠ key := fun heq => hslot (heq ▸ h.hasSlot)
    have hname : name.slot? ≠ some key := by
      intro heq
      obtain rfl := hown key heq
      exact hk (by simp [allocate, hm])
    refine ⟨claimed, ?_, fun _ => rfl⟩
    cases hg : d.file? name with
    | none => exact h
    | some g =>
      have hevicted := h.enforceQuota limits ((hquota.resolve_left hslot) g hg)
      dsimp only
      split
      · exact h
      · split
        · exact hevicted.isolateFresh hname hk
        · exact hevicted

end

end

end SpillDirectory

section

variable {limits : CipherqLimits} {key : SlotKey} {f : SpillFile} {s t : SpillState}
  {claimed : Bool}

end

end SmsPlatform.Spill
