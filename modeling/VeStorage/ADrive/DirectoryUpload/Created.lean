import VeStorage.ADrive.DirectoryUpload.Folders

namespace VeStorage.ADrive.DirectoryUpload
open Lib Requests
open Tos (CliError)

structure World where
  folders : Text → Prop
  files : Text → Prop

abbrev Ev := Event World Request Answer

abbrev Trace := Log World Request Answer

def worldAt (w : World) : Trace → World
  | [] => w
  | e :: _ => e.world

def created : Ev → Option Text
  | ⟨.create folder, .ok _, _⟩ => some folder
  | _ => none

def row : Ev → Option (Text × Bool)
  | ⟨.record remotePath isSuccess, _, _⟩ => some (remotePath, isSuccess)
  | _ => none

def rows (l : Trace) : List (Text × Bool) := l.filterMap row

-- Other writers only add folders, and files appear only where the run uploads them.
structure Admissible (w : World) (l : Trace) (e : Ev) : Prop where
  folders : ∀ f, (worldAt w l).folders f → e.world.folders f
  files : ∀ p, (∀ e' ∈ e :: l, e'.request ≠ .upload p) → (e.world.files p ↔ (worldAt w l).files p)
  listed : ∀ pre listing w' entries, e = ⟨.list pre, listing, w'⟩ →
    listParentEntries listing = .ok entries → (∀ f ∈ entries.folders, e.world.folders f) ∧
      ∀ f, listPrefixOf (parentOf f) = pre → (f ∈ entries.files ↔ e.world.files f)
  created : ∀ f, created e = some f → e.world.folders f

structure Sent (need : Text → Text → Prop) (w : World) (l : Trace) (r : Request) : Prop where
  create : ∀ f, r = .create f →
    (∀ g, g ++ ['/'] <+: f → (worldAt w l).folders g) ∧
      f ∉ l.filterMap DirectoryUpload.created ∧ ¬ (worldAt w l).files f
  upload : ∀ p, r = .upload p → (∀ reported ∈ rows l, reported.2 = true) → ∀ q, need p q →
    ∀ f ∈ folderPathsForMkdir q true, (worldAt w l).folders f

structure Inv (w : World) (D known opened : Text → Prop) (s : DirectoryUploadState) (l : Trace) :
    Prop where
  known : ∀ f, known f → (worldAt w l).folders f
  verified : ∀ f ∈ s.verified, (worldAt w l).folders f
  created : ∀ f ∈ l.filterMap DirectoryUpload.created, f ∈ s.verified ∨ opened f
  cachedFolders : ∀ parent entries, s.parents parent = some entries → ∀ f ∈ entries.folders,
    (worldAt w l).folders f
  cachedFiles : ∀ parent entries, s.parents parent = some entries → ∀ f, D f → parentOf f = parent →
    (f ∈ entries.files ↔ (worldAt w l).files f)
  uploads : ∀ p, D p → ∀ e ∈ l, e.request ≠ .upload p

variable {need : Text → Text → Prop} {w : World} {D known opened opened' : Text → Prop}
  {s : DirectoryUploadState} {l : Trace} {e : Ev} {folder parent : Text} {entries : ParentEntries}
  {destination : ParsedADriveUri}

theorem Inv.event (h : Inv w D known opened s l) (ha : Admissible w l e)
    (hup : ∀ p, D p → e.request ≠ .upload p) (hopen : ∀ f, DirectoryUpload.created e = some f → opened' f)
    (hmono : ∀ f, opened f → opened' f) : Inv w D known opened' s (e :: l) where
  known f hf := ha.folders f (h.known f hf)
  verified f hf := ha.folders f (h.verified f hf)
  created f hf := by
    rw [List.filterMap_cons] at hf
    cases hc : DirectoryUpload.created e with
    | none =>
      rw [hc] at hf
      exact (h.created f hf).imp_right (hmono f)
    | some g =>
      rw [hc] at hf
      rcases List.mem_cons.mp hf with rfl | hf
      · exact .inr (hopen f hc)
      · exact (h.created f hf).imp_right (hmono f)
  cachedFolders parent entries hp f hf := ha.folders f (h.cachedFolders parent entries hp f hf)
  cachedFiles parent entries hp f hd hf := by
    have hkeep : ∀ e' ∈ e :: l, e'.request ≠ .upload f := by
      intro e' he'
      rcases List.mem_cons.mp he' with rfl | he'
      · exact hup f hd
      · exact h.uploads f hd e' he'
    exact (h.cachedFiles parent entries hp f hd hf).trans (ha.files f hkeep).symm
  uploads p hd e' he' := by
    rcases List.mem_cons.mp he' with rfl | he'
    · exact hup p hd
    · exact h.uploads p hd e' he'

theorem Inv.quiet (h : Inv w D known opened s l) (ha : Admissible w l e)
    (hup : ∀ p, e.request ≠ .upload p) (hquiet : DirectoryUpload.created e = none) :
    Inv w D known opened s (e :: l) :=
  h.event ha (fun p _ => hup p) (by simp [hquiet]) fun _ => id

theorem Inv.cache {listing : Listing} {w' : World} {pre : Option Text}
    (h : Inv w D known opened s (⟨.list pre, listing, w'⟩ :: l))
    (ha : Admissible w l ⟨.list pre, listing, w'⟩) (hpre : listPrefixOf parent = pre)
    (hentries : listParentEntries listing = .ok entries) :
    Inv w D known opened (s.cache parent entries) (⟨.list pre, listing, w'⟩ :: l) := by
  obtain ⟨hfolders, hfiles⟩ := ha.listed pre listing w' entries rfl hentries
  refine ⟨h.known, h.verified, h.created, ?_, ?_, h.uploads⟩
  · intro p es hp f hf
    rcases eq_or_ne p parent with rfl | hne
    · obtain rfl : es = entries := by simpa [DirectoryUploadState.cache] using hp.symm
      exact hfolders f hf
    · exact h.cachedFolders p es (by simpa [DirectoryUploadState.cache, hne] using hp) f hf
  · intro p es hp f hd hf
    rcases eq_or_ne p parent with rfl | hne
    · obtain rfl : es = entries := by simpa [DirectoryUploadState.cache] using hp.symm
      exact hfiles f (hf ▸ hpre)
    · exact h.cachedFiles p es (by simpa [DirectoryUploadState.cache, hne] using hp) f hd hf

theorem Inv.insertFolder (h : Inv w D known opened s l) (hf : (worldAt w l).folders folder) :
    Inv w D known opened (s.insertFolder parent folder) l := by
  refine ⟨h.known, h.verified, h.created, ?_, ?_, h.uploads⟩
  · intro p es hp f hmem
    rcases eq_or_ne p parent with rfl | hne
    · simp only [DirectoryUploadState.insertFolder, Function.update_self, Option.map_eq_some_iff] at hp
      obtain ⟨old, hold, rfl⟩ := hp
      rcases List.mem_cons.mp hmem with rfl | hmem
      · exact hf
      · exact h.cachedFolders p old hold f hmem
    · exact h.cachedFolders p es (by simpa [DirectoryUploadState.insertFolder, hne] using hp) f hmem
  · intro p es hp f hd hpar
    rcases eq_or_ne p parent with rfl | hne
    · simp only [DirectoryUploadState.insertFolder, Function.update_self, Option.map_eq_some_iff] at hp
      obtain ⟨old, hold, rfl⟩ := hp
      exact h.cachedFiles p old hold f hd hpar
    · exact h.cachedFiles p es (by simpa [DirectoryUploadState.insertFolder, hne] using hp) f hd hpar

theorem Inv.verify (h : Inv w D known (· = folder) s l) (hf : (worldAt w l).folders folder) :
    Inv w D known (fun _ => False) { s with verified := folder :: s.verified } l where
  known := h.known
  verified f hmem := (List.mem_cons.mp hmem).elim (fun he => he ▸ hf) (h.verified f)
  created f hmem := .inl ((h.created f hmem).elim (List.mem_cons_of_mem _)
    fun he => he ▸ List.mem_cons_self)
  cachedFolders := h.cachedFolders
  cachedFiles := h.cachedFiles
  uploads := h.uploads

theorem Inv.weaken (h : Inv w D known (fun _ => False) s l) : Inv w D known opened s l :=
  { h with created := fun f hf => (h.created f hf).imp_right False.elim }

-- What one attempt to have `folder` leaves behind.
def Made (w : World) (D known : Text → Prop) (folder : Text) (reported : List Text)
    (reports : List (Text × Bool)) (out : Outcome) (l : Trace) : Prop :=
  out.1.reported = reported ∧ rows l = reports ∧
    match out.2 with
    | .ok _ => Inv w D known (· = folder) out.1 l ∧ (worldAt w l).folders folder
    | .error _ => Inv w D known (fun _ => False) out.1 l

theorem sent_list (pre : Option Text) : Sent need w l (.list pre) := ⟨nofun, nofun⟩

theorem sent_create (hanc : ∀ g, g ++ ['/'] <+: folder → (worldAt w l).folders g)
    (hnew : folder ∉ l.filterMap created) (hfile : ¬ (worldAt w l).files folder) :
    Sent need w l (.create folder) := by
  refine ⟨?_, nofun⟩
  rintro f ⟨⟩
  exact ⟨hanc, hnew, hfile⟩

theorem createMissing_holds (h : Inv w D known (fun _ => False) s l)
    (hsent : Sent need w l (.create folder)) :
    Holds (Admissible w) (Sent need w) (Made w D known folder s.reported (rows l))
      (createMissingFolder s folder parent) l := by
  refine ⟨hsent, fun answer w₁ ha => ?_⟩
  cases answer with
  | ok u =>
    exact ⟨rfl, rfl, h.event ha (fun _ _ => nofun) (by rintro f ⟨⟩; rfl) (fun _ => False.elim),
      ha.created folder rfl⟩
  | error error =>
    have hfail : Inv w D known (fun _ => False) s (⟨.create folder, .error error, w₁⟩ :: l) :=
      h.event ha (fun _ _ => nofun) nofun (fun _ => False.elim)
    dsimp only
    split
    · refine ⟨sent_list _, fun listing w₂ hb => ?_⟩
      have hlist := hfail.quiet hb (fun _ => nofun) rfl
      cases hentries : listParentEntries listing with
      | error e =>
        simp only [hentries]
        exact ⟨rfl, rfl, hlist⟩
      | ok entries =>
        simp only [hentries]
        split
        · exact ⟨rfl, rfl, hlist⟩
        · rename_i hshown
          rw [not_or, not_not] at hshown
          exact ⟨rfl, rfl, (hlist.cache hb rfl hentries).weaken,
            (hb.listed _ _ _ entries rfl hentries).1 folder hshown.2⟩
    · exact ⟨rfl, rfl, hfail⟩

theorem ensureListed_holds (h : Inv w D known (fun _ => False) s l) (hd : D folder)
    (hnew : folder ∉ s.verified)
    (hanc : ∀ g, g ++ ['/'] <+: folder → (worldAt w l).folders g)
    (hcached : s.parents (parentOf folder) = some entries) :
    Holds (Admissible w) (Sent need w) (Made w D known folder s.reported (rows l))
      (ensureListed destination folder s entries) l := by
  unfold ensureListed
  split
  · exact ⟨rfl, rfl, h⟩
  rename_i hfile
  split
  · rename_i hfolder
    exact ⟨rfl, rfl, h.weaken, h.cachedFolders _ entries hcached folder hfolder⟩
  · have hsent : Sent need w l (.create folder) := by
      refine sent_create hanc (fun hc => ?_) fun hf => ?_
      · exact (h.created folder hc).elim hnew id
      · exact hfile ((h.cachedFiles _ entries hcached folder hd rfl).mpr hf)
    refine (createMissing_holds h hsent).bind ?_
    rintro ⟨s', result⟩ l' ⟨hreported, hrows, hout⟩
    cases result with
    | error e => exact ⟨hreported, hrows, hout⟩
    | ok u => exact ⟨hreported, hrows, hout.1.insertFolder hout.2, hout.2⟩

theorem ensureOne_holds (h : Inv w D known (fun _ => False) s l) (hd : D folder)
    (hnew : folder ∉ s.verified)
    (hanc : ∀ g, g ++ ['/'] <+: folder → (worldAt w l).folders g) :
    Holds (Admissible w) (Sent need w) (Made w D known folder s.reported (rows l))
      (ensureOne destination s folder) l := by
  unfold ensureOne
  cases hcached : s.parents (parentOf folder) with
  | some entries => exact ensureListed_holds h hd hnew hanc hcached
  | none =>
    refine ⟨sent_list _, fun listing w₁ ha => ?_⟩
    have hlist := h.quiet ha (fun _ => nofun) rfl
    cases hentries : listParentEntries listing with
    | error e =>
      simp only [hentries]
      exact ⟨rfl, rfl, hlist⟩
    | ok entries =>
      simp only [hentries]
      exact ensureListed_holds (hlist.cache ha rfl hentries) hd hnew
        (fun g hg => ha.folders g (hanc g hg)) (by simp [DirectoryUploadState.cache])

theorem Inv.learn {known' : Text → Prop} (h : Inv w D known opened s l)
    (hk : ∀ f, known' f → (worldAt w l).folders f) : Inv w D known' opened s l :=
  { h with known := hk }

variable {path : Text}

theorem ensure_holds (h : Inv w D known (fun _ => False) s l) (hpath : segments '/' path ≠ [])
    (hd : ∀ f ∈ folderPathsForMkdir path true, D f) :
    Holds (Admissible w) (Sent need w) (fun out l' => out.1.reported = s.reported ∧ rows l' = rows l ∧
      Inv w D known (fun _ => False) out.1 l' ∧
      (out.2.isOk = true → ∀ f ∈ folderPathsForMkdir path true, (worldAt w l').folders f))
      (ensure destination s path) l := by
  let Kept := fun (known : Text → Prop) (s' : DirectoryUploadState) (l' : Trace) =>
    s'.reported = s.reported ∧ rows l' = rows l ∧ Inv w D known (fun _ => False) s' l'
  refine (Holds.each (I := fun done => Kept fun f => known f ∨ f ∈ done) (F := Kept known)
    (folderPathsForMkdir path true)
    ⟨rfl, rfl, h.learn fun f hf => h.known f (hf.resolve_right List.not_mem_nil)⟩ ?_).mono ?_
  rotate_left
  · rintro ⟨s', result⟩ l' hout
    cases result with
    | error e => exact ⟨hout.1, hout.2.1, hout.2.2, nofun⟩
    | ok u =>
      exact ⟨hout.1, hout.2.1, hout.2.2.learn fun f hf => hout.2.2.known f (.inl hf),
        fun _ f hf => hout.2.2.known f (.inr hf)⟩
  rintro done folder rest hsplit s₁ l₁ ⟨hreported, hrows, hinv⟩
  have hd' : D folder := hd folder (by simp [hsplit])
  have hgrow : ∀ {s₂ l₂}, Inv w D (fun f => known f ∨ f ∈ done) (fun _ => False) s₂ l₂ →
      (worldAt w l₂).folders folder →
      Inv w D (fun f => known f ∨ f ∈ done ++ [folder]) (fun _ => False) s₂ l₂ := by
    intro s₂ l₂ hi hf
    refine hi.learn fun f hk => ?_
    rcases hk with hk | hk
    · exact hi.known f (.inl hk)
    · rcases List.mem_append.mp hk with hk | hk
      · exact hi.known f (.inr hk)
      · exact List.mem_singleton.mp hk ▸ hf
  unfold ensureVerified
  split
  · rename_i hver
    exact ⟨hreported, hrows, hgrow hinv (hinv.verified folder hver)⟩
  rename_i hver
  refine (ensureOne_holds hinv hd' hver fun g hg =>
    hinv.known g (.inr (folderPaths_ancestors hpath hsplit hg))).bind ?_
  rintro ⟨s₂, result⟩ l₂ ⟨hrep, hrow, hout⟩
  cases result with
  | error e =>
    exact ⟨hrep.trans hreported, hrow.trans hrows, hout.learn fun f hf => hout.known f (.inl hf)⟩
  | ok u =>
    exact ⟨hrep.trans hreported, hrow.trans hrows, hgrow (hout.1.verify hout.2) hout.2⟩

-- Where the run stands between two directories or files.
structure Between (w : World) (D W : Text → Prop) (s : DirectoryUploadState) (l : Trace) : Prop where
  inv : Inv w D (fun _ => False) (fun _ => False) s l
  reported : (rows l).map Prod.fst = s.reported
  nodup : s.reported.Nodup
  made : ∀ p, (p, true) ∈ rows l → ∀ f ∈ folderPathsForMkdir p true, (worldAt w l).folders f
  wanted : ∀ p ∈ s.reported, W p

variable {W : Text → Prop}

theorem record_holds (h : Between w D W s l) (hw : W path) (hpath : segments '/' path ≠ [])
    (hd : ∀ f ∈ folderPathsForMkdir path true, D f) :
    Holds (Admissible w) (Sent need w) (fun out l' => Between w D W out.1 l' ∧
      s.reported ⊆ out.1.reported ∧ path ∈ out.1.reported)
      (recordDirectoryUpload destination s path) l := by
  unfold recordDirectoryUpload
  split
  · rename_i hmem
    exact ⟨h, fun _ => id, hmem⟩
  rename_i hnew
  have hstart : Inv w D (fun f => ∃ p, (p, true) ∈ rows l ∧ f ∈ folderPathsForMkdir p true)
      (fun _ => False) { s with reported := path :: s.reported } l :=
    { h.inv with known := fun f ⟨p, hp, hf⟩ => h.made p hp f hf }
  refine (ensure_holds hstart hpath hd).bind ?_
  rintro ⟨s', result⟩ l' ⟨hreported, hrows, hinv, hok⟩
  refine ⟨⟨nofun, nofun⟩, fun saved w' ha => ?_⟩
  have hrow : rows (⟨.record path result.isOk, saved, w'⟩ :: l') = (path, result.isOk) :: rows l := by
    rw [rows, List.filterMap_cons]
    exact congrArg _ hrows
  have hinv' := hinv.quiet ha (fun _ => nofun) rfl
  refine ⟨⟨hinv'.learn fun _ => False.elim, ?_, ?_, ?_, ?_⟩, ?_, ?_⟩
  · rw [hrow, List.map_cons, h.reported, hreported]
  · rw [hreported]
    exact List.nodup_cons.mpr ⟨hnew, h.nodup⟩
  · intro p hp f hf
    rw [hrow] at hp
    rcases List.mem_cons.mp hp with hp | hp
    · obtain ⟨rfl, hresult⟩ := Prod.mk.inj hp
      exact ha.folders f (hok hresult.symm f hf)
    · exact hinv'.known f ⟨p, hp, hf⟩
  · intro p hp
    rw [hreported] at hp
    rcases List.mem_cons.mp hp with rfl | hp
    · exact hw
    · exact h.wanted p hp
  · rw [hreported]
    exact List.subset_cons_self _ _
  · rw [hreported]
    exact List.mem_cons_self

theorem Between.event (h : Between w D W s l) (ha : Admissible w l e)
    (hup : ∀ p, D p → e.request ≠ .upload p) (hcreated : DirectoryUpload.created e = none)
    (hrow : row e = none) : Between w D W s (e :: l) := by
  have hrows : rows (e :: l) = rows l := by rw [rows, List.filterMap_cons, hrow]; rfl
  refine ⟨h.inv.event ha hup (by simp [hcreated]) fun _ => id, ?_, h.nodup, ?_, h.wanted⟩
  · rw [hrows, h.reported]
  · rw [hrows]
    exact fun p hp f hf => ha.folders f (h.made p hp f hf)

theorem upload_holds (h : Between w D W s l) (hd : ¬ D path)
    (hneed : ∀ q, need path q → q ∈ s.reported) :
    Holds (Admissible w) (Sent need w) (fun out l' => Between w D W out.1 l' ∧ out.1 = s)
      (uploadFile path s) l := by
  refine ⟨⟨nofun, nofun⟩, fun skips w₁ ha => ?_⟩
  have hask := h.event ha (fun _ _ => nofun) rfl rfl
  cases skips with
  | error e => exact ⟨hask, rfl⟩
  | ok skip =>
    cases skip with
    | true => exact ⟨hask, rfl⟩
    | false =>
      refine ⟨⟨nofun, ?_⟩, fun _ w₂ hb => ⟨hask.event hb ?_ rfl rfl, rfl⟩⟩
      · rintro p ⟨⟩ hall q hq f hf
        have hmem := hneed q hq
        rw [← hask.reported] at hmem
        obtain ⟨⟨q', ok⟩, hrow, rfl⟩ := List.mem_map.mp hmem
        obtain rfl : ok = true := hall _ hrow
        exact hask.made q' hrow f hf
      · rintro p hp ⟨⟩
        exact hd hp

end VeStorage.ADrive.DirectoryUpload
