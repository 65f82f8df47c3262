import MinorityViewport.Networks.Connection

/-!
# The files of the site

A path can be written into a request line in many ways: a character as
itself or as an escape, and a space as a plus sign.  `Encodes` says which,
`urlDecode_of_encodes` that the handler reads each of them, and
`exists_encodes` that every path of bytes can be written.

`fetch` puts the parts of the server together: whoever asks for a file in
any of these ways, in any pieces, gets its bytes.
-/

namespace MinorityViewport.Http

open Exec Viewport RequestParser

/-! ## Paths in a request line -/

/-- A way to write a path. -/
inductive Encodes : Str → Str → Prop
  | nil : Encodes [] []
  | plain {c : Char} {uri path : Str} :
    c ≠ '%' → c ≠ '+' → Encodes uri path → Encodes (c :: uri) (c :: path)
  | space {uri path : Str} : Encodes uri path → Encodes ('+' :: uri) (' ' :: path)
  | escape {c d : Char} {high low : Nat} {uri path : Str} :
    hexValue? c = some high → hexValue? d = some low → Encodes uri path →
      Encodes ('%' :: c :: d :: uri) (Char.ofNat (high * 16 + low) :: path)

theorem lt_of_hexValue? {c : Char} {n : Nat} (h : hexValue? c = some n) : n < 16 := by
  unfold hexValue? at h
  split_ifs at h with hdigit ha hA
  · have hle : 48 ≤ c.toNat ∧ c.toNat ≤ 57 := hdigit
    have hn : c.toNat - 48 = n := Option.some.inj h
    omega
  · have hle : 97 ≤ c.toNat ∧ c.toNat ≤ 102 := ha
    have hn : c.toNat - 97 + 10 = n := Option.some.inj h
    omega
  · have hle : 65 ≤ c.toNat ∧ c.toNat ≤ 70 := hA
    have hn : c.toNat - 65 + 10 = n := Option.some.inj h
    omega

theorem isSpace_of_hexValue? {c : Char} {n : Nat} (h : hexValue? c = some n) :
    isSpace c = false := by
  by_contra hspace
  simp only [isSpace, Bool.not_eq_false, Bool.or_eq_true, decide_eq_true_eq] at hspace
  rcases hspace with ((((rfl | rfl) | rfl) | rfl) | rfl) | rfl <;>
    cases h

/-- Of two digits nothing is skipped and nothing is left. -/
theorem readHex_of_digits {c d : Char} {high low : Nat} (hc : hexValue? c = some high)
    (hd : hexValue? d = some low) : readHex [c, d] = some ((high * 16 + low : Nat) : Int) := by
  have hspace : ¬ isSpace c = true := by
    rw [isSpace_of_hexValue? hc]
    exact Bool.false_ne_true
  have hdigits : (([c, d].takeWhile fun c => (hexValue? c).isSome).filterMap hexValue?) =
      [high, low] := by
    simp [List.takeWhile, hc, hd]
  have hminus : c ≠ '-' := by rintro rfl; cases hc
  have hplus : c ≠ '+' := by rintro rfl; cases hc
  have hlower : d ≠ 'x' := by rintro rfl; cases hd
  have hupper : d ≠ 'X' := by rintro rfl; cases hd
  simp [readHex, List.dropWhile_cons_of_neg hspace, hminus, hplus, hlower, hupper, hdigits]

theorem urlDecode_of_encodes {uri path : Str} (h : Encodes uri path) :
    urlDecode uri = some path := by
  induction h with
  | nil => rfl
  | plain hpercent hplus _ ih => simp [urlDecode, hpercent, ih]
  | space _ ih => simp [urlDecode, ih]
  | @escape c d high low uri path hc hd _ ih =>
    have hhigh := lt_of_hexValue? hc
    have hlow := lt_of_hexValue? hd
    have hbyte : toUnsigned ((high * 16 + low : Nat) : Int) % 256 = high * 16 + low := by
      unfold toUnsigned
      omega
    simp only [urlDecode, readHex_of_digits hc hd, hbyte, ih, Option.map_eq_map, Option.map_some]

/-- A byte as an escape. -/
def escape (c : Char) : Str := ['%', Nat.digitChar (c.toNat / 16), Nat.digitChar (c.toNat % 16)]

theorem hexValue?_digitChar : ∀ n < 16, hexValue? (Nat.digitChar n) = some n := by decide +kernel

theorem printable_digitChar :
    ∀ n < 16, Nat.digitChar n ≠ ' ' ∧ isCtl (Nat.digitChar n) = false := by
  decide +kernel

/-- Every path of bytes can be written with characters that a request line
may hold. -/
theorem exists_encodes {path : Str} (h : ∀ c ∈ path, c.toNat ≤ 255) :
    ∃ uri, Encodes uri path ∧ ∀ c ∈ uri, c ≠ ' ' ∧ isCtl c = false := by
  refine ⟨path.flatMap escape, ?_, fun c hc => ?_⟩
  · induction path with
    | nil => exact .nil
    | cons c path ih =>
      obtain ⟨hc, hpath⟩ := List.forall_mem_cons.mp h
      have hescape := Encodes.escape (hexValue?_digitChar (c.toNat / 16) (by omega))
        (hexValue?_digitChar (c.toNat % 16) (by omega)) (ih hpath)
      rw [Nat.div_add_mod', Char.ofNat_toNat] at hescape
      exact hescape
  · obtain ⟨b, hb, hc⟩ := List.mem_flatMap.mp hc
    have hbyte := h b hb
    simp only [escape, List.mem_cons, List.not_mem_nil, or_false] at hc
    rcases hc with rfl | rfl | rfl
    · exact ⟨by decide, rfl⟩
    · exact printable_digitChar _ (by omega)
    · exact printable_digitChar _ (by omega)

/-! ## A file from end to end -/

section Fetch

variable {K : Type} [Json.Machine] [Field K] [LinearOrder K] [FloorRing K]

/-- The paths of files: they pass the checks of the handler, and name
neither a directory nor an endpoint. -/
structure IsFilePath (path : Str) : Prop where
  head : path.head? = some '/'
  up : ¬ "..".toList <:+: path
  last : path.getLast? ≠ some '/'
  plain : ∀ e : Endpoint, path ≠ e.path

omit [Json.Machine] in
theorem servedPath_of_isFilePath {uri path : Str} (h : IsFilePath path)
    (hdecode : urlDecode uri = some path) : servedPath uri = some path := by
  have hgood : ¬ (path = [] ∨ path.head? ≠ some '/' ∨ "..".toList <:+: path) := by
    rintro (rfl | hhead | hup)
    · cases h.head
    · exact hhead h.head
    · exact h.up hup
  simp only [servedPath, hdecode, if_neg hgood, if_neg h.last]

/-- A file is sent with its bytes.  Of the files, only one that is called
`.json` does not stay as it is: it is emptied. -/
theorem run_handleRequest_of_isFilePath (site : Site) (world : World K) {req : Request}
    {path content : Str} (h : IsFilePath path) (hdecode : urlDecode req.uri = some path)
    {s : Server K} (hcontent : Site.read (site.docRoot ++ path) s.files = some content) :
    (handleRequest site world req).run s =
      .ok (.ofContent .ok content (extensionToType (extension path)))
        ⟨if extension path = "json".toList then site.truncate (site.docRoot ++ path) s.files
          else s.files, s.viewport⟩ := by
  have hplain : Endpoint.all.find? (path = Endpoint.path ·) = none :=
    List.find?_eq_none.mpr fun e _ => by simpa using h.plain e
  rw [handleRequest_eq_served, servedPath_of_isFilePath h hdecode]
  simp only [hplain, Option.elim_none, sendFile, EStateM.run_bind, EStateM.run_pure,
    EStateM.run_get, hcontent]
  split_ifs <;> rfl

/-- A request for a path in some spelling. -/
def getText (uri : Str) (h : ∀ c ∈ uri, c ≠ ' ' ∧ isCtl c = false) : RequestText :=
  { listingText with uri := uri, uri_printable := h }

/-- Every file can be asked for, and the read that completes such a request,
however the path is written, is answered with the bytes of the file under
the type of its extension.  The viewport stays as it is, and so do the files
if the file is no `.json`. -/
theorem fetch (site : Site) (world : World K) (s : Server K) {path content : Str}
    (hbytes : ∀ c ∈ path, c.toNat ≤ 255) (h : IsFilePath path)
    (hcontent : Site.read (site.docRoot ++ path) s.files = some content) :
    (∃ t : RequestText, Encodes t.uri path) ∧
      ∀ t : RequestText, Encodes t.uri path → ∀ received c buffer rest,
        Connection.Run (serverHandler site world s) received [] c → c.waiting = .read →
          received ++ buffer = t.print ++ rest →
            ∃ (reply : Reply) (s' : Server K) (p : Parser),
              (handleRequest site world t.message.toRequest).run s = .ok reply s' ∧
              s'.viewport = s.viewport ∧
              (extension path ≠ "json".toList → s'.files = s.files) ∧
              Connection.complete (serverHandler site world s) c (.read (some buffer)) =
                some (.ok (⟨p, .write⟩, [.handle t.message, .send reply.bytes])) ∧
              ∀ more, readReply (reply.bytes ++ more) =
                some (.ofContent .ok content (extensionToType (extension path))) := by
  constructor
  · obtain ⟨uri, hencodes, hprintable⟩ := exists_encodes hbytes
    exact ⟨getText uri hprintable, hencodes⟩
  · intro t hencodes received c buffer rest run hreading htext
    have hrun : (handleRequest site world t.message.toRequest).run s = _ :=
      run_handleRequest_of_isFilePath site world h (urlDecode_of_encodes hencodes) hcontent
    have hparse := Connection.parse_of_run run hreading t htext
    refine ⟨_, _, ⟨.expectingNewline3, t.message⟩, hrun, rfl, fun hext => if_neg hext, ?_,
      readReply_bytes (framed_handleRequest hrun)⟩
    simp only [Connection.complete, hreading, if_true, Connection.handleRead, hparse]
    rw [serverHandler_eq_ok_iff.mpr ⟨_, hrun⟩]

end Fetch

/-- A site with one script. -/
def scriptServer : Server ℚ :=
  ⟨OrdMap.empty.assign "doc/a.js".toList "run()".toList, Viewport.start⟩

theorem isFilePath_script : IsFilePath "/a.js".toList where
  head := rfl
  up := by decide +kernel
  last := by decide +kernel
  plain e := by cases e <;> decide +kernel

/-- The whole request comes in one read. -/
theorem fetch_script :
    ∃ (t : RequestText) (reply : Reply) (s' : Server ℚ) (p : Parser),
      Encodes t.uri "/a.js".toList ∧
      (handleRequest quietSite quietWorld t.message.toRequest).run scriptServer =
        .ok reply s' ∧
      Connection.complete (serverHandler quietSite quietWorld scriptServer) Connection.start
          (.read (some t.print)) =
        some (.ok (⟨p, .write⟩, [.handle t.message, .send reply.bytes])) ∧
      ∀ more, readReply (reply.bytes ++ more) =
        some (.ofContent .ok "run()".toList (extensionToType (extension "/a.js".toList))) := by
  have hcontent : Site.read (quietSite.docRoot ++ "/a.js".toList) scriptServer.files =
      some "run()".toList := by
    decide +kernel
  obtain ⟨⟨t, hencodes⟩, hall⟩ := fetch quietSite quietWorld scriptServer
    (List.all_iff_forall_prop.mp (by decide +kernel)) isFilePath_script hcontent
  obtain ⟨reply, s', p, hrun, -, -, hcomplete, hread⟩ := hall t hencodes [] Connection.start
    t.print [] Connection.Run.start rfl (List.append_nil _).symm
  exact ⟨t, reply, s', p, hencodes, hrun, hcomplete, hread⟩

end MinorityViewport.Http
