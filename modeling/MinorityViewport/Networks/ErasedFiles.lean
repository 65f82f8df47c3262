import MinorityViewport.Networks.SharedEndpoint

/-!
# The files that a request rewrites

`handle_request` erases the file that it has sent when the path has the
extension `json`.  It looks for the extension in the whole path, and the file
is opened by the path up to its first NUL.

* `eqAway_handleRequest` is the frame of a request: all files but the one that
  is opened.
* `ErasesOther` says that the two extensions differ and that there is
  something to erase.  `onlyJsonDiffers_handleRequest_iff` says that these
  are the requests that rewrite a file of another extension.

The logs of a calibration go to the working directory of the server and not
to the document root.
-/

namespace MinorityViewport.Http

open Exec

variable {K : Type}

/-! ## Extensions -/

theorem findLastOf_append_of_mem (root path : Str) {c : Char} (h : c ∈ path) :
    findLastOf (root ++ path) c = (findLastOf path c).map (· + root.length) := by
  obtain ⟨i, hi⟩ : ∃ i, path.reverse.findIdx? (· = c) = some i := by
    apply Option.isSome_iff_exists.mp
    rw [List.findIdx?_isSome]
    simpa using h
  have hlt : i < path.length := by
    have := (List.findIdx?_eq_some_iff_getElem.mp hi).1
    rwa [List.length_reverse] at this
  rw [findLastOf, findLastOf, List.reverse_append, List.findIdx?_append, hi]
  simp only [Option.some_or, Option.map_some, List.length_append, Option.some.injEq]
  omega

theorem findLastOf_append_of_notMem (root path : Str) {c : Char} (h : c ∉ path) :
    findLastOf path c = none ∧ ∀ i ∈ findLastOf (root ++ path) c, i < root.length := by
  have hnone : path.reverse.findIdx? (· = c) = none := by
    rw [List.findIdx?_eq_none_iff]
    intro x hx
    have : x ≠ c := fun hxc => h (hxc ▸ List.mem_reverse.mp hx)
    simpa using this
  refine ⟨by rw [findLastOf, hnone, Option.map_none], fun i hi => ?_⟩
  rw [findLastOf, List.reverse_append, List.findIdx?_append, hnone, Option.none_or] at hi
  simp only [Option.map_map, Option.mem_def, Option.map_eq_some_iff, Function.comp_apply,
    List.length_append, List.length_reverse] at hi
  obtain ⟨j, hj, rfl⟩ := hi
  have hlt := (List.findIdx?_eq_some_iff_getElem.mp hj).1
  rw [List.length_reverse] at hlt
  omega

/-- The extension of a path that has a slash does not depend on the
directory. -/
theorem extension_append (root path : Str) (h : '/' ∈ path) :
    extension (root ++ path) = extension path := by
  obtain ⟨slash, hslash⟩ : ∃ i, findLastOf path '/' = some i := by
    apply Option.isSome_iff_exists.mp
    rw [findLastOf, Option.isSome_map, List.findIdx?_isSome]
    simpa using h
  rw [extension, extension, findLastOf_append_of_mem root path h, hslash]
  by_cases hdot : '.' ∈ path
  · rw [findLastOf_append_of_mem root path hdot]
    cases findLastOf path '.' with
    | none => rfl
    | some dot =>
      simp only [Option.map_some]
      rw [show dot + root.length + 1 = root.length + (dot + 1) by omega,
        List.drop_append, List.drop_eq_nil_of_le (by omega), List.nil_append,
        Nat.add_sub_cancel_left]
      by_cases hlt : slash < dot
      · rw [if_pos hlt, if_pos (by omega)]
      · rw [if_neg hlt, if_neg (by omega)]
  · obtain ⟨hnone, hroot⟩ := findLastOf_append_of_notMem root path hdot
    rw [hnone]
    cases hsome : findLastOf (root ++ path) '.' with
    | none => rfl
    | some dot =>
      have hlt := hroot dot hsome
      simp only [Option.map_some]
      rw [if_neg (by omega)]

/-! ## The path of a request -/

theorem head?_servedPath {uri path : Str} (h : servedPath uri = some path) :
    path.head? = some '/' := by
  unfold servedPath at h
  cases hdecode : urlDecode uri with
  | none =>
    rw [hdecode] at h
    cases h
  | some requestPath =>
    simp only [hdecode] at h
    by_cases hbad : requestPath = [] ∨ requestPath.head? ≠ some '/' ∨
        "..".toList <:+: requestPath
    · rw [if_pos hbad] at h
      cases h
    · have hhead : requestPath.head? = some '/' := by
        by_contra hne
        exact hbad (Or.inr (Or.inl hne))
      rw [if_neg hbad] at h
      split_ifs at h
      · obtain rfl := Option.some.inj h
        rw [List.head?_append, hhead, Option.some_or]
      · obtain rfl := Option.some.inj h
        exact hhead

theorem slash_mem_cStr {path : Str} (h : path.head? = some '/') : '/' ∈ cStr path := by
  cases path with
  | nil => cases h
  | cons c rest =>
    obtain rfl := Option.some.inj h
    rw [cStr, List.takeWhile_cons_of_pos (by decide)]
    exact List.mem_cons_self

theorem extension_cStr_path (e : Endpoint) : extension (cStr e.path) = "json".toList := by
  cases e <;> decide +kernel

section Handler

variable [Json.Machine] [Field K] [LinearOrder K] [FloorRing K]

/-- A request to a path that is no endpoint sends the file. -/
theorem after_handleRequest_of_noEndpoint (site : Site) (world : World K) {req : Request}
    {path : Str} (h : servedPath req.uri = some path)
    (hnone : Endpoint.all.find? (path = Endpoint.path ·) = none) (s : Server K) :
    after (handleRequest site world req) s = after (sendFile site path) s := by
  rw [handleRequest_eq_served, h]
  simp only [hnone, Option.elim_none]
  rfl

end Handler

/-! ## The frame -/

/-- The two states have the same files, but for `name`. -/
def EqAway (name : Str) (s s' : Server K) : Prop :=
  ∀ other, other ≠ name → s'.files.find? other = s.files.find? other

instance (name : Str) : IsPreorder (Server K) (EqAway name) where
  refl _ _ _ := rfl
  trans _ _ _ h h' other hne := (h' other hne).trans (h other hne)

theorem find?_truncate (site : Site) (fullPath : Str) (files : Files) (name : Str) :
    (site.truncate fullPath files).find? name =
      if site.writable (cStr fullPath) ∧ name = cStr fullPath then some []
      else files.find? name := by
  unfold Site.truncate
  by_cases hw : site.writable (cStr fullPath)
  · rw [if_pos hw]
    by_cases hname : name = cStr fullPath
    · rw [if_pos ⟨hw, hname⟩, hname, OrdMap.find?_assign_self]
    · rw [if_neg fun h => hname h.2, OrdMap.find?_assign_of_ne _ _ hname]
  · rw [if_neg hw, if_neg fun h => hw h.1]

theorem find?_overwrite_of_ne (site : Site) {fullPath text : Str} (files : Files) {name : Str}
    (h : name ≠ cStr fullPath) :
    (site.overwrite fullPath text files).find? name = files.find? name := by
  unfold Site.overwrite
  split_ifs
  · exact OrdMap.find?_assign_of_ne _ _ h
  · rfl

theorem moves_truncate (site : Site) (fullPath : Str) :
    Moves (EqAway (cStr fullPath)) (modify fun s : Server K =>
      { s with files := site.truncate fullPath s.files } : EStateM Fault (Server K) PUnit) := by
  refine moves_modify fun s other hne => ?_
  show (site.truncate fullPath s.files).find? other = _
  rw [find?_truncate, if_neg fun h => hne h.2]

/-- What the end of a request leaves. -/
theorem after_sendFile (site : Site) (path : Str) (s : Server K) :
    after (sendFile site path) s =
      if extension path = "json".toList ∧ (Site.read (site.docRoot ++ path) s.files).isSome then
        { s with files := site.truncate (site.docRoot ++ path) s.files }
      else s := by
  rw [sendFile, after_get_bind]
  cases Site.read (site.docRoot ++ path) s.files with
  | none => rw [if_neg (by simp)]; rfl
  | some content =>
    by_cases hext : extension path = "json".toList
    · rw [if_pos ⟨hext, rfl⟩]
      simp only [if_pos hext]
      rfl
    · rw [if_neg fun h => hext h.1]
      simp only [if_neg hext]
      rfl

/-- The file that is sent stays as it is, if it is not erased. -/
theorem find?_after_sendFile_iff (site : Site) (path : Str) (s : Server K) :
    (after (sendFile site path) s).files.find? (cStr (site.docRoot ++ path)) =
        s.files.find? (cStr (site.docRoot ++ path)) ↔
      ¬ (extension path = "json".toList ∧ site.writable (cStr (site.docRoot ++ path)) ∧
        ∃ content, content ≠ [] ∧ Site.read (site.docRoot ++ path) s.files = some content) := by
  rw [after_sendFile]
  cases hread : Site.read (site.docRoot ++ path) s.files with
  | none => simp
  | some content =>
    by_cases hext : extension path = "json".toList
    · rw [if_pos ⟨hext, rfl⟩, find?_truncate]
      unfold Site.read at hread
      by_cases hw : site.writable (cStr (site.docRoot ++ path))
      · rw [if_pos ⟨hw, rfl⟩, hread]
        simp [hext, hw, eq_comm]
      · simp [hw]
    · rw [if_neg fun h => hext h.1]
      exact iff_of_true rfl fun h => hext h.1

theorem moves_sendFile (site : Site) (path : Str) :
    Moves (EqAway (cStr (site.docRoot ++ path)))
      (sendFile site path : EStateM Fault (Server K) Reply) := by
  intro s
  rw [after_sendFile]
  split_ifs
  · exact moves_truncate site _ s
  · exact refl_of _ s

section Handler

variable [Json.Machine] [Field K] [LinearOrder K] [FloorRing K]

theorem moves_action (site : Site) (world : World K) (req : Request) (e : Endpoint) :
    Moves (EqAway (cStr (site.docRoot ++ e.path))) (e.action site world req) := by
  have hcalls : Moves (EqAway (cStr (site.docRoot ++ e.path)))
      (zoom Server.viewport (fun σ s => { s with viewport := σ }) (e.text world req)) := by
    intro s other _
    rw [after_zoom]
  unfold Endpoint.action
  refine moves_ite (fun _ => ?_) fun _ => moves_bind hcalls fun _ => moves_pure _
  refine moves_bind (moves_truncate site _) fun _ => moves_bind hcalls fun text => ?_
  exact moves_modify fun s other hne => find?_overwrite_of_ne site s.files hne

/-- A request leaves all files alone but the one that it opens. -/
theorem eqAway_handleRequest (site : Site) (world : World K) (req : Request) {path : Str}
    (h : servedPath req.uri = some path) :
    Moves (EqAway (cStr (site.docRoot ++ path))) (handleRequest site world req) := by
  rw [handleRequest_eq_served, h]
  refine moves_bind ?_ fun _ => moves_sendFile site path
  cases hfind : Endpoint.all.find? (path = Endpoint.path ·) with
  | none => exact moves_pure _
  | some e =>
    obtain rfl : path = e.path := by simpa using List.find?_some hfind
    exact moves_action site world req e

end Handler

/-! ## Erasing another file -/

/-- The erasure at the end of a request goes by the extension of the whole
path, which is not the one of the file that is opened, and finds something to
erase. -/
structure ErasesOther (site : Site) (files : Files) (path : Str) : Prop where
  whole : extension path = "json".toList
  opened : extension (cStr path) ≠ "json".toList
  writable : site.writable (cStr (site.docRoot ++ path))
  content : ∃ content, content ≠ [] ∧ Site.read (site.docRoot ++ path) files = some content

/-- The files of the document root that differ have the extension `json`. -/
def OnlyJsonDiffers (site : Site) (files files' : Files) : Prop :=
  ∀ name, site.docRoot <+: name → files'.find? name ≠ files.find? name →
    extension name = "json".toList

/-- When only a file of another extension can differ, it must not. -/
theorem onlyJsonDiffers_iff_of_eqAway {site : Site} {s s' : Server K} {name : Str}
    (haway : EqAway name s s') (hunder : site.docRoot <+: name)
    (hext : extension name ≠ "json".toList) :
    OnlyJsonDiffers site s.files s'.files ↔ s'.files.find? name = s.files.find? name := by
  constructor
  · intro h
    by_contra hne
    exact hext (h name hunder hne)
  · intro h other _ hne
    by_cases hother : other = name
    · exact absurd (hother ▸ h) hne
    · exact absurd (haway other hother) hne

section Handler

variable [Json.Machine] [Field K] [LinearOrder K] [FloorRing K]

/-- A request rewrites files of the extension `json` only, if and only if it
does not erase another one. -/
theorem onlyJsonDiffers_handleRequest_iff (site : Site) (world : World K) (req : Request)
    (s : Server K) (hroot : '\x00' ∉ site.docRoot) :
    OnlyJsonDiffers site s.files (after (handleRequest site world req) s).files ↔
      ∀ path, servedPath req.uri = some path → ¬ ErasesOther site s.files path := by
  cases hpath : servedPath req.uri with
  | none =>
    rw [handleRequest_eq_served, hpath]
    exact iff_of_true (fun _ _ hne => absurd rfl hne) fun _ h => by cases h
  | some path =>
    have hframe := eqAway_handleRequest site world req hpath s
    have hname := cStr_append hroot path
    have hext : extension (cStr (site.docRoot ++ path)) = extension (cStr path) := by
      rw [hname, extension_append _ _ (slash_mem_cStr (head?_servedPath hpath))]
    simp only [Option.some.injEq, forall_eq']
    by_cases hjson : extension (cStr path) = "json".toList
    · refine iff_of_true (fun name _ hne => ?_) fun h => h.opened hjson
      obtain rfl : name = cStr (site.docRoot ++ path) := by
        by_contra haway
        exact hne (hframe name haway)
      rw [hext, hjson]
    · have hnone : Endpoint.all.find? (path = Endpoint.path ·) = none := by
        rw [List.find?_eq_none]
        intro e _ he
        obtain rfl : path = e.path := by simpa using he
        exact hjson (extension_cStr_path e)
      rw [onlyJsonDiffers_iff_of_eqAway hframe (hname ▸ List.prefix_append _ _)
        (fun h => hjson (hext ▸ h)), after_handleRequest_of_noEndpoint site world hpath hnone,
        find?_after_sendFile_iff]
      refine not_congr ⟨?_, fun h => ⟨h.whole, h.writable, h.content⟩⟩
      exact fun ⟨hwhole, hwritable, hcontent⟩ => ⟨hwhole, hjson, hwritable, hcontent⟩

end Handler

/-! ## Two requests for a page -/

def pageFiles : Files := OrdMap.empty.assign "doc/index.html".toList "<html>".toList

def pageServer : Server ℚ := ⟨pageFiles, Viewport.start⟩

/-- The page itself. -/
theorem onlyJsonDiffers_handleRequest_iff_page :
    OnlyJsonDiffers quietSite pageFiles
      (after (handleRequest quietSite quietWorld ⟨"/index.html".toList, []⟩) pageServer).files := by
  refine (onlyJsonDiffers_handleRequest_iff quietSite quietWorld _ pageServer
    (by decide)).mpr fun path hpath h => ?_
  have hserved : servedPath "/index.html".toList = some "/index.html".toList := by
    decide +kernel
  obtain rfl := Option.some.inj (hserved.symm.trans hpath)
  exact absurd h.whole (by decide +kernel)

/-- The page with `%00.json` behind its name. -/
theorem not_onlyJsonDiffers_nul :
    ¬ OnlyJsonDiffers quietSite pageFiles
      (after (handleRequest quietSite quietWorld ⟨"/index.html%00.json".toList, []⟩)
        pageServer).files := by
  intro h
  have hserved : servedPath "/index.html%00.json".toList =
      some "/index.html\x00.json".toList := by
    decide +kernel
  have herased : (after (sendFile quietSite "/index.html\x00.json".toList)
      pageServer).files.find? "doc/index.html".toList = some [] := by
    decide +kernel
  rw [after_handleRequest_of_noEndpoint quietSite quietWorld hserved (by decide +kernel)] at h
  refine absurd (h "doc/index.html".toList ⟨"/index.html".toList, rfl⟩ ?_) (by decide +kernel)
  rw [herased]
  decide +kernel

end MinorityViewport.Http
