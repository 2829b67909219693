import VeStorage.ADrive.ShareListing.Listing

namespace VeStorage.ADrive.ShareListing
open Lib
open Lib.PageLoop (Ran Sent run_sent run_ok run_error run_ends)
open Lib.Crash (ensure ensure_eq_ok bind_eq_ok pure_eq_ok ensure_eq_error bind_eq_error pure_eq_error)
open ADrive.Share (CliError)

section Retain

variable {α : Type} {key : α → Text}

theorem mem_retainNew_keys (xs : List α) (keys : List Text) (k : Text) :
    k ∈ (retainNew key keys xs).1 ↔ k ∈ keys ∨ k ∈ (retainNew key keys xs).2.map key := by
  induction xs generalizing keys with
  | nil => simp [retainNew]
  | cons a rest ih =>
    unfold retainNew
    split
    · exact ih keys
    · simp only [ih, List.mem_cons, List.map_cons]
      tauto

variable (key) in
theorem mem_retainNew_of_mem {xs : List α} {keys : List Text} {a : α} (h : a ∈ xs) :
    key a ∈ (retainNew key keys xs).1 := by
  induction xs generalizing keys with
  | nil => cases h
  | cons b rest ih =>
    unfold retainNew
    rcases List.mem_cons.mp h with rfl | h
    · split
      · next hmem => exact (mem_retainNew_keys rest keys _).mpr (.inl hmem)
      · exact (mem_retainNew_keys rest _ _).mpr (.inl List.mem_cons_self)
    · split
      · exact ih h
      · exact ih h

variable (key) in
theorem retainNew_fresh (xs : List α) (keys : List Text) :
    ((retainNew key keys xs).2.map key).Nodup ∧
      ∀ k ∈ (retainNew key keys xs).2.map key, k ∉ keys := by
  induction xs generalizing keys with
  | nil => exact ⟨List.nodup_nil, nofun⟩
  | cons a rest ih =>
    unfold retainNew
    split
    · exact ih keys
    · next hnew =>
      obtain ⟨hnodup, hfresh⟩ := ih (key a :: keys)
      refine ⟨List.nodup_cons.mpr ⟨fun hmem => hfresh _ hmem List.mem_cons_self, hnodup⟩, ?_⟩
      intro k hk
      rcases List.mem_cons.mp hk with rfl | hk
      · exact hnew
      · exact fun hmem => hfresh k hk (List.mem_cons_of_mem _ hmem)

-- The keys that a retained list holds, and no key twice.
structure Held (key : α → Text) (keys : List Text) (xs : List α) : Prop where
  nodup : (xs.map key).Nodup
  keys : ∀ k, k ∈ keys ↔ k ∈ xs.map key

theorem Held.retain {keys : List Text} {held : List α} (h : Held key keys held) (xs : List α) :
    Held key (retainNew key keys xs).1 (held ++ (retainNew key keys xs).2) := by
  obtain ⟨hnodup, hfresh⟩ := retainNew_fresh key xs keys
  constructor
  · rw [List.map_append]
    exact h.nodup.append hnodup fun k hk hk' => hfresh k hk' ((h.keys k).mpr hk)
  · intro k
    rw [mem_retainNew_keys, h.keys, List.map_append, List.mem_append]

end Retain

section Normalize

-- Every file and folder of the page, but the listed folder and folders without a name.
structure Holds (listed : Text) (page : ListFilesOutput) (files : List FileInfo)
    (folders : List FolderInfo) : Prop where
  folder : ∀ folder ∈ page.folders, folderKey folder.folder ≠ [] →
    folderKey folder.folder ≠ folderKey listed →
    ∃ shown ∈ folders, folderKey shown.folder = folderKey folder.folder
  file : ∀ file ∈ page.files, adriveFileInfoIsFolderMarker file = false →
    ∃ shown ∈ files, shown.filePath = file.filePath
  marker : ∀ file ∈ page.files, adriveFileInfoIsFolderMarker file = true →
    folderKey file.filePath ≠ [] → folderKey file.filePath ≠ folderKey listed →
    ∃ shown ∈ folders, folderKey shown.folder = folderKey file.filePath

theorem normalizePage_holds (page : ListFilesOutput) (listed : Text) :
    Holds listed page (normalizePage page listed).files (normalizePage page listed).folders := by
  have hstart : Normalizing.Inv page.folders
      ⟨page.folders.map fun folder => normalizeAdriveFolderPath folder.folder, [], page.folders⟩ :=
    ⟨fun k hk => List.mem_map.mp hk, fun _ hf => hf⟩
  have hfilter : ∀ (folders : List FolderInfo) (folder : FolderInfo), folder ∈ folders →
      folderKey folder.folder ≠ [] → folderKey folder.folder ≠ folderKey listed →
      folder ∈ folders.filter fun folder =>
        folderKey folder.folder ≠ [] && folderKey folder.folder ≠ folderKey listed :=
    fun folders folder hmem hne hl => List.mem_filter.mpr ⟨hmem, by simp [hne, hl]⟩
  obtain ⟨-, hinv, hall⟩ := Normalizing.foldl_spec (if listed = [] then none
    else some (normalizeAdriveFolderPath (trimFolderPrefix listed))) hstart page.files
  refine ⟨fun folder hf hne hl => ⟨folder, ?_, rfl⟩, fun file hf hm => ⟨file, ?_, rfl⟩,
    fun file hf hm hne hl => ?_⟩
  · exact hfilter _ folder (hinv.kept folder hf) hne hl
  · exact (hall file hf).plain hm
  · have hcurrent : some (folderKey file.filePath) ≠ if listed = [] then none
        else some (normalizeAdriveFolderPath (trimFolderPrefix listed)) := by
      rw [normalize_trimFolderPrefix]
      split
      · exact nofun
      · exact fun he => hl (Option.some.inj he)
    obtain ⟨folder, hmem, hkey⟩ := (hall file hf).marker hm hne hcurrent
    change folderKey folder.folder = folderKey file.filePath at hkey
    refine ⟨folder, hfilter _ folder hmem ?_ ?_, hkey⟩
    · rwa [hkey]
    · rwa [hkey]

theorem Holds.mono {listed : Text} {page : ListFilesOutput} {files files' : List FileInfo}
    {folders folders' : List FolderInfo} (h : Holds listed page files folders)
    (hf : ∀ k ∈ files.map FileInfo.filePath, k ∈ files'.map FileInfo.filePath)
    (hd : ∀ k ∈ folders.map (fun folder => folderKey folder.folder),
      k ∈ folders'.map fun folder => folderKey folder.folder) :
    Holds listed page files' folders' where
  folder folder hm hne hl := by
    obtain ⟨shown, hs, hk⟩ := h.folder folder hm hne hl
    exact List.mem_map.mp (hk ▸ hd _ (List.mem_map_of_mem hs))
  file file hm hn := by
    obtain ⟨shown, hs, hk⟩ := h.file file hm hn
    exact List.mem_map.mp (hk ▸ hf _ (List.mem_map_of_mem hs))
  marker file hm hn hne hl := by
    obtain ⟨shown, hs, hk⟩ := h.marker file hm hn hne hl
    exact List.mem_map.mp (hk ▸ hd _ (List.mem_map_of_mem hs))

end Normalize

section Requests

variable {args : ShareFilesArgs} {s s' : Listing} {q : ShareListFilesInput}
  {page : ListFilesOutput} {listed : Option Text}

theorem pageLimit_eq_ok {limit : Nat} : s.pageLimit = .ok limit ↔
    s.count ≤ s.maxKeys ∧ limit = min (s.maxKeys - s.count) maxServicePageSize := by
  unfold Listing.pageLimit
  split
  · next h => simp [h, eq_comm]
  · next h => simp [h]

theorem nextRequest_eq_ok (h : s.nextRequest args = .ok (q, s')) :
    s.pages < maxListingPages ∧ s' = { s with pages := s.pages + 1 } ∧ q.marker = s.marker ∧
      q.limit = some (min (s.maxKeys - s.count) maxServicePageSize) := by
  simp only [Listing.nextRequest, bind_eq_ok, ensure_eq_ok, pure_eq_ok, pageLimit_eq_ok] at h
  obtain ⟨-, hpages, limit, ⟨-, rfl⟩, heq⟩ := h
  cases heq
  exact ⟨Nat.lt_of_not_le hpages, rfl, rfl, rfl⟩

theorem validatePagination_eq_ok (h : s.validatePagination page = .ok s') :
    (page.isTruncated = false ∧ s' = s) ∨ (page.isTruncated = true ∧
      page.nextMarker ∉ s.markers ∧ s' = { s with markers := page.nextMarker :: s.markers }) := by
  unfold Listing.validatePagination at h
  simp only [bind_eq_ok, ensure_eq_ok] at h
  obtain ⟨-, -, h⟩ := h
  split at h
  · next ht => exact .inl ⟨ht, (pure_eq_ok.mp h).symm⟩
  · next ht =>
    simp only [bind_eq_ok, ensure_eq_ok, pure_eq_ok] at h
    obtain ⟨-, -, -, hnew, rfl⟩ := h
    exact .inr ⟨Bool.eq_true_of_not_eq_false ht, hnew, rfl⟩

-- What `accept` makes of the lists once the markers have been checked.
structure Accepted (s : Listing) (page : ListFilesOutput) (listed : Text) (s' : Listing) : Prop where
  fits : s.count ≤ s.maxKeys
  maxKeys : s'.maxKeys = s.maxKeys
  pages : s'.pages = s.pages
  count : s'.count ≤ s.maxKeys
  files : ∃ new, s'.output.files = s.output.files ++ new.2 ∧ s'.filePaths = new.1 ∧
    new = retainNew FileInfo.filePath s.filePaths (normalizePage page listed).files
  folders : ∃ new, s'.output.folders = s.output.folders ++ new.2 ∧ s'.folderPaths = new.1 ∧
    new = retainNew (fun folder => folderKey folder.folder) s.folderPaths
      (normalizePage page listed).folders
  nextMarker : s'.output.nextMarker = page.nextMarker
  isTruncated : s'.output.isTruncated = page.isTruncated
  marker : page.isTruncated = true → s'.marker = some page.nextMarker ∧
    page.nextMarker ∉ s.markers ∧ s'.markers = page.nextMarker :: s.markers

theorem accept_eq_ok (h : s.accept page listed = .ok s') : Accepted s page (listed.getD []) s' := by
  simp only [Listing.accept, bind_eq_ok, ensure_eq_ok, pure_eq_ok, pageLimit_eq_ok] at h
  obtain ⟨checked, hchecked, limit, ⟨hfits, rfl⟩, -, hlimit, rfl⟩ := h
  have hcount : ∀ (l l' : List FileInfo) (d d' : List FolderInfo),
      (l ++ l').length + (d ++ d').length = l.length + d.length + (l'.length + d'.length) := by
    intro l l' d d'
    rw [List.length_append, List.length_append]
    omega
  rcases validatePagination_eq_ok hchecked with ⟨ht, rfl⟩ | ⟨ht, hnew, rfl⟩
  · refine ⟨hfits, rfl, rfl, ?_, ⟨_, rfl, rfl, rfl⟩, ⟨_, rfl, rfl, rfl⟩, rfl, rfl, fun h => ?_⟩
    · rw [Listing.count, hcount]
      have := Nat.le_trans (Nat.le_of_not_lt hlimit) (Nat.min_le_left _ _)
      unfold Listing.count at hfits this
      omega
    · exact absurd (ht.symm.trans h) (by simp)
  · refine ⟨hfits, rfl, rfl, ?_, ⟨_, rfl, rfl, rfl⟩, ⟨_, rfl, rfl, rfl⟩, rfl, rfl,
      fun h => ⟨if_pos h, hnew, rfl⟩⟩
    rw [Listing.count, hcount]
    have := Nat.le_trans (Nat.le_of_not_lt hlimit) (Nat.min_le_left _ _)
    simp only [Listing.count] at hfits this ⊢
    omega

end Requests

def folderName (folder : FolderInfo) : Text := folderKey folder.folder

def answered (listPage : Nat → Except CliError ListFilesOutput) :
    Nat → Except Stop ListFilesOutput := fun n => (listPage n).mapError .failed

-- The markers of the pages read are the ones that the next requests carry.
structure Going (args : ShareFilesArgs) (sent : List ShareListFilesInput)
    (pages : List ListFilesOutput) (s : Listing) : Prop where
  room : s.count < s.maxKeys
  markers : sent.map (·.marker) ++ [s.marker] = args.marker :: pages.map fun p => some p.nextMarker
  fresh : (sent.map (·.marker) ++ [s.marker]).Nodup
  seen : ∀ m, some m ∈ sent.map (·.marker) ++ [s.marker] → m ∈ s.markers

structure Listing.Inv (args : ShareFilesArgs) (sent : List ShareListFilesInput)
    (pages : List ListFilesOutput) (s : Listing) : Prop where
  maxKeys : s.maxKeys = asUsize args.maxKeys
  count : s.count ≤ s.maxKeys
  files : Held FileInfo.filePath s.filePaths s.output.files
  folders : Held folderName s.folderPaths s.output.folders
  turns : s.pages = sent.length ∧ s.pages ≤ maxListingPages
  limits : ∀ q ∈ sent, ∃ limit, q.limit = some limit ∧ 1 ≤ limit ∧ limit ≤ maxServicePageSize
  holds : ∀ page ∈ pages,
    Holds ((listedPath args).getD []) page s.output.files s.output.folders
  markers : (sent.map (·.marker)).Nodup ∧
    (sent = [] ∨ sent.map (·.marker) = args.marker :: pages.dropLast.map fun p => some p.nextMarker)
  last : ∀ page, pages.getLast? = some page →
    s.output.nextMarker = page.nextMarker ∧ s.output.isTruncated = page.isTruncated

section Run

variable {args : ShareFilesArgs} {listPage : Nat → Except CliError ListFilesOutput}
  {sent : List ShareListFilesInput} {pages : List ListFilesOutput} {s s' asked : Listing}
  {q : ShareListFilesInput} {page : ListFilesOutput}

theorem asUsize_of_pos (h : 0 < args.maxKeys) :
    (asUsize args.maxKeys : Int) = args.maxKeys.toInt := by
  have hpos : (0 : Int) < args.maxKeys.toInt := Int32.lt_iff_toInt_lt.mp h
  have hlt := args.maxKeys.toInt_lt
  unfold asUsize
  omega

theorem asUsize_pos (h : 0 < args.maxKeys) : 0 < asUsize args.maxKeys := by
  have hpos : (0 : Int) < args.maxKeys.toInt := Int32.lt_iff_toInt_lt.mp h
  have hsame := asUsize_of_pos h
  omega

theorem answered_eq_ok {n : Nat} (h : answered listPage n = .ok page) : listPage n = .ok page := by
  unfold answered Except.mapError at h
  split at h
  · cases h
  · next he => exact he.trans (congrArg Except.ok (Except.ok.inj h))

theorem loop_ask (h : (loop args).ask s = .ok (some (q, asked))) :
    s.pages < maxListingPages ∧ asked = { s with pages := s.pages + 1 } ∧ q.marker = s.marker ∧
      q.limit = some (min (s.maxKeys - s.count) maxServicePageSize) := by
  simp only [loop, bind_eq_ok, pure_eq_ok] at h
  obtain ⟨next, hnext, heq⟩ := h
  cases heq
  exact nextRequest_eq_ok hnext

theorem loop_ask_ne_none (s : Listing) : (loop args).ask s ≠ .ok none := by
  intro h
  simp only [loop, bind_eq_ok, pure_eq_ok] at h
  obtain ⟨next, -, heq⟩ := h
  cases heq

theorem loop_accept {finished : Bool} (h : (loop args).accept s page = .ok (s', finished)) :
    Accepted s page ((listedPath args).getD []) s' ∧ finished = s'.isFinished := by
  simp only [loop, bind_eq_ok, pure_eq_ok, Prod.mk.injEq] at h
  obtain ⟨_, haccept, rfl, rfl⟩ := h
  exact ⟨accept_eq_ok haccept, rfl⟩

theorem new_inv : Listing.Inv args [] [] (Listing.new args) where
  maxKeys := rfl
  count := Nat.zero_le _
  files := ⟨List.nodup_nil, fun _ => Iff.rfl⟩
  folders := ⟨List.nodup_nil, fun _ => Iff.rfl⟩
  turns := ⟨rfl, Nat.zero_le _⟩
  limits := nofun
  holds := nofun
  markers := ⟨List.nodup_nil, .inl rfl⟩
  last := nofun

theorem new_going (h : 0 < args.maxKeys) : Going args [] [] (Listing.new args) where
  room := asUsize_pos h
  markers := rfl
  fresh := List.nodup_singleton _
  seen m hm := by
    have hmarker : some m = args.marker := List.mem_singleton.mp hm
    change m ∈ args.marker.toList
    rw [← hmarker]
    exact List.mem_singleton_self m

theorem asked_limit (hgoing : Going args sent pages s)
    (hask : (loop args).ask s = .ok (some (q, asked))) :
    ∃ limit, q.limit = some limit ∧ 1 ≤ limit ∧ limit ≤ maxServicePageSize := by
  obtain ⟨-, -, -, hlimit⟩ := loop_ask hask
  have hroom := hgoing.room
  exact ⟨_, hlimit, by unfold maxServicePageSize; omega, Nat.min_le_right _ _⟩

theorem turn_inv (h : Listing.Inv args sent pages s) (hgoing : Going args sent pages s)
    (hask : (loop args).ask s = .ok (some (q, asked))) {finished : Bool}
    (haccept : (loop args).accept asked page = .ok (s', finished)) :
    Listing.Inv args (sent ++ [q]) (pages ++ [page]) s' ∧
      (finished = false → Going args (sent ++ [q]) (pages ++ [page]) s') := by
  have hlimit := asked_limit hgoing hask
  obtain ⟨hpages, rfl, hmarker, -⟩ := loop_ask hask
  obtain ⟨ha, rfl⟩ := loop_accept haccept
  obtain ⟨files, hfiles, hpaths, rfl⟩ := ha.files
  obtain ⟨folders, hfolders, hkeys, rfl⟩ := ha.folders
  have hheldFiles := h.files.retain (normalizePage page ((listedPath args).getD [])).files
  have hheldFolders := h.folders.retain (normalizePage page ((listedPath args).getD [])).folders
  have hmarkers : (sent ++ [q]).map (·.marker) = sent.map (·.marker) ++ [s.marker] := by
    rw [List.map_append, List.map_singleton, hmarker]
  have hgrow : ∀ {α : Type} {key : α → Text} {xs ys : List α},
      ∀ k ∈ xs.map key, k ∈ (xs ++ ys).map key := fun k hk => by
    rw [List.map_append]
    exact List.mem_append_left _ hk
  refine ⟨⟨ha.maxKeys.trans h.maxKeys, by rw [ha.maxKeys]; exact ha.count, ?_, ?_, ?_, ?_, ?_, ?_,
    ?_⟩, ?_⟩
  · rw [hfiles, hpaths]
    exact hheldFiles
  · rw [hfolders, hkeys]
    exact hheldFolders
  · rw [ha.pages, List.length_append]
    exact ⟨congrArg (· + 1) h.turns.1, hpages⟩
  · intro r hr
    rcases List.mem_append.mp hr with hr | hr
    · exact h.limits r hr
    · exact List.mem_singleton.mp hr ▸ hlimit
  · intro p hp
    rw [hfiles, hfolders]
    rcases List.mem_append.mp hp with hp | hp
    · exact (h.holds p hp).mono hgrow hgrow
    · rw [List.mem_singleton.mp hp]
      refine (normalizePage_holds page _).mono ?_ ?_
      · intro k hk
        obtain ⟨file, hmem, rfl⟩ := List.mem_map.mp hk
        exact (hheldFiles.keys _).mp (mem_retainNew_of_mem _ hmem)
      · intro k hk
        obtain ⟨folder, hmem, rfl⟩ := List.mem_map.mp hk
        exact (hheldFolders.keys _).mp (mem_retainNew_of_mem folderName hmem)
  · rw [hmarkers, List.dropLast_concat]
    exact ⟨hgoing.fresh, .inr hgoing.markers⟩
  · intro p hp
    rw [List.getLast?_concat, Option.some.injEq] at hp
    subst hp
    exact ⟨ha.nextMarker, ha.isTruncated⟩
  · intro hfinished
    simp only [Listing.isFinished, Bool.or_eq_false_iff, decide_eq_false_iff_not,
      Bool.not_eq_false', ge_iff_le, Nat.not_le] at hfinished
    obtain ⟨hroom, htruncated⟩ := hfinished
    obtain ⟨hnext, hnew, hseen⟩ := ha.marker (ha.isTruncated.symm.trans htruncated)
    refine ⟨hroom, ?_, ?_, ?_⟩
    · rw [hmarkers, hnext, hgoing.markers, List.map_append]
      rfl
    · rw [hmarkers, hnext]
      refine List.nodup_append.mpr ⟨hgoing.fresh, List.nodup_singleton _, ?_⟩
      rintro m hm m' hm' rfl
      rw [List.mem_singleton.mp hm'] at hm
      exact hnew (hgoing.seen _ hm)
    · intro m hm
      rw [hseen]
      rw [hmarkers, hnext] at hm
      rcases List.mem_append.mp hm with hm | hm
      · exact List.mem_cons_of_mem _ (hgoing.seen m hm)
      · rw [Option.some.inj (List.mem_singleton.mp hm)]
        exact List.mem_cons_self

theorem ran_inv (hmax : 0 < args.maxKeys) {finished : Bool}
    (h : Ran (loop args) (answered listPage) (Listing.new args) sent pages s finished) :
    Listing.Inv args sent pages s ∧ (finished = false → Going args sent pages s) := by
  induction h with
  | start => exact ⟨new_inv, fun _ => new_going hmax⟩
  | turn h hask hanswer haccept ih => exact turn_inv ih.1 (ih.2 rfl) hask haccept

theorem run_returns : (listFiles args listPage).2 ≠ none := by
  refine run_ends (fun s => maxListingPages - s.pages) ?_ (Nat.lt_succ_of_le (Nat.sub_le _ _)) 0
  intro s q asked page s' hask haccept
  obtain ⟨hpages, rfl, -⟩ := loop_ask hask
  obtain ⟨ha, -⟩ := loop_accept haccept
  have hturns : s'.pages = s.pages + 1 := ha.pages
  omega

theorem sent_inv (hmax : 0 < args.maxKeys)
    (h : Sent (loop args) (answered listPage) (Listing.new args) sent) :
    sent.length ≤ maxListingPages ∧ (sent.map (·.marker)).Nodup ∧
      ∀ q ∈ sent, ∃ limit, q.limit = some limit ∧ 1 ≤ limit ∧ limit ≤ maxServicePageSize := by
  cases h with
  | answered h =>
    obtain ⟨hinv, -⟩ := ran_inv hmax h
    exact ⟨hinv.turns.1 ▸ hinv.turns.2, hinv.markers.1, hinv.limits⟩
  | last h hask =>
    obtain ⟨hinv, hgoing⟩ := ran_inv hmax h
    obtain ⟨hpages, -, hmarker, -⟩ := loop_ask hask
    refine ⟨?_, ?_, ?_⟩
    · rw [List.length_append, ← hinv.turns.1]
      exact hpages
    · rw [List.map_append, List.map_singleton, hmarker]
      exact (hgoing rfl).fresh
    · intro r hr
      rcases List.mem_append.mp hr with hr | hr
      · exact hinv.limits r hr
      · exact List.mem_singleton.mp hr ▸ asked_limit (hgoing rfl) hask

theorem pageLimit_ne_underflow (h : s.count ≤ s.maxKeys) : s.pageLimit ≠ .error .underflow := by
  rw [Listing.pageLimit, if_pos h]
  exact nofun

theorem ask_ne_underflow (h : s.count ≤ s.maxKeys) : (loop args).ask s ≠ .error .underflow := by
  intro hask
  simp only [loop, Listing.nextRequest, bind_eq_error, ensure_eq_error, pure_eq_error] at hask
  rcases hask with (⟨-, he⟩ | ⟨-, -, hlimit | ⟨-, -, he⟩⟩) | ⟨-, -, he⟩
  · cases he
  · exact pageLimit_ne_underflow (s := { s with pages := s.pages + 1 }) h hlimit
  · exact he
  · exact he

theorem validatePagination_ne_underflow : s.validatePagination page ≠ .error .underflow := by
  intro hchecked
  unfold Listing.validatePagination at hchecked
  simp only [bind_eq_error, ensure_eq_error] at hchecked
  rcases hchecked with ⟨-, he⟩ | ⟨-, -, hchecked⟩
  · cases he
  · split at hchecked
    · exact pure_eq_error.mp hchecked
    · simp only [validateMarker, bind_eq_error, ensure_eq_error, pure_eq_error] at hchecked
      rcases hchecked with ⟨-, he⟩ | ⟨-, -, ⟨-, he⟩ | ⟨-, -, he⟩⟩
      · cases he
      · cases he
      · exact he

theorem accept_ne_underflow (h : s.count ≤ s.maxKeys) :
    (loop args).accept s page ≠ .error .underflow := by
  intro haccept
  simp only [loop, Listing.accept, bind_eq_error, ensure_eq_error, pure_eq_error] at haccept
  rcases haccept with (hchecked | ⟨checked, hchecked, hlimit | ⟨-, -, ⟨-, he⟩ | ⟨-, -, he⟩⟩⟩) |
    ⟨-, -, he⟩
  · exact validatePagination_ne_underflow hchecked
  · refine pageLimit_ne_underflow ?_ hlimit
    rcases validatePagination_eq_ok hchecked with ⟨-, rfl⟩ | ⟨-, -, rfl⟩
    · exact h
    · exact h
  · cases he
  · exact he
  · exact he

theorem run_underflow (hmax : 0 < args.maxKeys) :
    (listFiles args listPage).2 ≠ some (.error .underflow) := by
  intro h
  obtain ⟨sent, read, s, hran, hfail⟩ := run_error .start rfl h
  obtain ⟨hinv, -⟩ := ran_inv hmax hran
  rcases hfail with hask | ⟨q, asked, hask, hanswer | ⟨page, hanswer, haccept⟩⟩
  · exact ask_ne_underflow hinv.count hask
  · unfold Except.mapError at hanswer
    split at hanswer
    · cases hanswer
    · cases hanswer
  · obtain ⟨-, rfl, -⟩ := loop_ask hask
    exact accept_ne_underflow (s := { s with pages := s.pages + 1 }) hinv.count haccept

end Run

-- What a listing that was not refused returns, and the pages it has read.
structure Unskipped (args : ShareFilesArgs) (listPage : Nat → Except CliError ListFilesOutput)
    (sent : List ShareListFilesInput) (pages : List ListFilesOutput) (output : ListFilesOutput) :
    Prop where
  consumed : pages.length = sent.length ∧ ∀ n page, pages[n]? = some page → listPage n = .ok page
  markers : sent.map (·.marker) = args.marker :: pages.dropLast.map fun page => some page.nextMarker
  bounded : (output.files.length + output.folders.length : Int) ≤ args.maxKeys.toInt
  files : (output.files.map FileInfo.filePath).Nodup
  folders : (output.folders.map folderName).Nodup
  holds : ∀ page ∈ pages, Holds ((listedPath args).getD []) page output.files output.folders
  last : ∃ page, pages.getLast? = some page ∧ output.nextMarker = page.nextMarker ∧
    output.isTruncated = page.isTruncated

theorem share_listing_never_skips (args : ShareFilesArgs) (hmax : 0 < args.maxKeys)
    (listPage : Nat → Except CliError ListFilesOutput) :
    (listFiles args listPage).2 ≠ none ∧
    (listFiles args listPage).2 ≠ some (.error .underflow) ∧
    (listFiles args listPage).1.length ≤ maxListingPages ∧
    ((listFiles args listPage).1.map (·.marker)).Nodup ∧
    (∀ q ∈ (listFiles args listPage).1,
      ∃ limit, q.limit = some limit ∧ 1 ≤ limit ∧ limit ≤ maxServicePageSize) ∧
    ∀ listing, (listFiles args listPage).2 = some (.ok listing) →
      ∃ pages, Unskipped args listPage (listFiles args listPage).1 pages listing.output := by
  refine ⟨run_returns, run_underflow hmax, ?_⟩
  have hsent : Sent (loop args) (answered listPage) (Listing.new args) (listFiles args listPage).1 :=
    run_sent .start rfl _
  refine ⟨(sent_inv hmax hsent).1, (sent_inv hmax hsent).2.1, (sent_inv hmax hsent).2.2,
    fun listing hlisting => ?_⟩
  obtain ⟨pages, finished, hran, hend⟩ := run_ok .start rfl hlisting
  obtain ⟨hinv, hgoing⟩ := ran_inv hmax hran
  have hread : pages ≠ [] := by
    rintro rfl
    obtain ⟨-, hfinished⟩ := hran.of_nil
    rcases hend with hend | hask
    · exact absurd (hfinished.symm.trans hend) nofun
    · exact loop_ask_ne_none _ hask
  have hlast := List.getLast?_eq_some_getLast hread
  have hmaxKeys : (asUsize args.maxKeys : Int) = args.maxKeys.toInt := asUsize_of_pos hmax
  have hcount := hinv.count
  rw [hinv.maxKeys] at hcount
  exact ⟨pages, {
    consumed := ⟨hran.length.symm, fun n page hn => answered_eq_ok (hran.answered n page hn)⟩
    markers := hinv.markers.2.resolve_left fun he => hread (List.length_eq_zero_iff.mp
      (hran.length.symm.trans (by rw [show _ = [] from he]; rfl)))
    bounded := by
      rw [← hmaxKeys]
      exact_mod_cast hcount
    files := hinv.files.nodup
    folders := hinv.folders.nodup
    holds := hinv.holds
    last := ⟨_, hlast, hinv.last _ hlast⟩ }⟩

def sampleArgs : ShareFilesArgs := ⟨some "docs/".toList, none, 3⟩

def samplePages : Nat → Except CliError ListFilesOutput
  | 0 => .ok ⟨[⟨"docs/a".toList, "file".toList⟩, ⟨"docs/b/".toList, []⟩], [⟨"docs/b".toList⟩],
      "p2".toList, true⟩
  | 1 => .ok ⟨[⟨"docs/c".toList, "file".toList⟩], [], [], false⟩
  | _ + 2 => .error .http

def sampleOutput : ListFilesOutput :=
  ⟨[⟨"docs/a".toList, "file".toList⟩, ⟨"docs/c".toList, "file".toList⟩], [⟨"docs/b".toList⟩], [], false⟩

theorem share_listing_never_skips_sample :
    ∃ listing pages, (listFiles sampleArgs samplePages).2 = some (.ok listing) ∧
      listing.output = sampleOutput ∧
      Unskipped sampleArgs samplePages (listFiles sampleArgs samplePages).1 pages sampleOutput := by
  obtain ⟨-, -, -, -, -, hlisting⟩ := share_listing_never_skips sampleArgs (by decide) samplePages
  obtain ⟨pages, hpages⟩ := hlisting _ rfl
  exact ⟨_, pages, rfl, rfl, hpages⟩

end VeStorage.ADrive.ShareListing
