import Lute.Http.InsertStatement
import Lute.Http.StalePage
import Lute.Http.Rendering

/-! The file names a request builds in `realFile_`, and when they fit there. -/
namespace Lute.Http

namespace Application

variable {s t : Application} {env : Environment} {req : HttpRequest} {resp resp' : HttpResponse}
  {index : Bytes}

/-- What a request has appended to the root; a refused registration builds no name. -/
def fileName (env : Environment) (s : Application) (req : HttpRequest) : Option Bytes :=
  if req.path = ascii "/" ∨ req.path = ascii "/index.html" then some (ascii "/index.html")
  else if req.path = ascii "/register" then
    if req.method = .kPost ∧ req.body ≠ [] then
      if s.hasHField env.redis (lastGroup registerPattern 1 req.body) = 0 then
        if env.execute (insertStatement (lastGroup registerPattern 1 req.body)
            (lastGroup registerPattern 3 req.body) (lastGroup registerPattern 5 req.body)) = 0 then
          some (ascii "/welcome.html")
        else none
      else some (ascii "/registerFailed.html")
    else some (ascii "/register.html")
  else if req.path = ascii "/welcome" then some (ascii "/welcome.html")
  else if contains (ascii ".jpg") req.path then some req.path
  else if req.method = .kGet ∧ contains (ascii "/login") req.path then
    if s.hasHField env.redis (lastGroup loginPattern 1 req.query) ≠ 0 then
      if s.getHField env.redis (lastGroup loginPattern 1 req.query) =
          lastGroup loginPattern 3 req.query then
        some (ascii "/welcome.html")
      else some (ascii "/loginFailed.html")
    else some (ascii "/loginFailed.html")
  else some (ascii "/404.html")

/-- The name with the root before it and its final null byte fits in `realFile_`. -/
def Fits (s : Application) (index : Bytes) : Prop :=
  (cString s.serverPath).length + (cString index).length ≤ FILENAME_LEN - 1

instance (s : Application) (index : Bytes) : Decidable (s.Fits index) :=
  inferInstanceAs (Decidable (_ ≤ _))

/-- What a request does with the name it builds. -/
def Builds (s : Application) (r : Result (Application × HttpResponse)) : Option Bytes → Prop
  | none => ∃ resp', r = .ok (s, resp')
  | some index =>
    (s.Fits index ∧ ∃ t resp', r = .ok (t, resp') ∧ t.serverPath = s.serverPath ∧
        t.realFile = cString s.serverPath ++ cString index) ∨
      ¬ s.Fits index ∧ r = .error .outOfBounds

theorem setRealFile_eq (s : Application) (index : Bytes) : s.setRealFile index =
    if s.Fits index then .ok { s with realFile := cString s.serverPath ++ cString index }
    else .error .outOfBounds := by
  have hiff : (cString s.serverPath ++ cString index).length < FILENAME_LEN ↔ s.Fits index := by
    simp only [Fits, FILENAME_LEN, List.length_append]
    omega
  simp only [setRealFile, hiff]

theorem builds_setRealFile {x : Application} {f : Application → Result (Application × HttpResponse)}
    (hx : x.serverPath = s.serverPath) (hf : ∀ u, ∃ resp', f u = .ok (u, resp')) :
    s.Builds (x.setRealFile index >>= f) (some index) := by
  have hfits : x.Fits index ↔ s.Fits index := by
    unfold Fits
    rw [hx]
  rw [setRealFile_eq]
  by_cases h : s.Fits index
  · rw [if_pos (hfits.mpr h), ok_bind]
    obtain ⟨resp', hr⟩ := hf { x with realFile := cString x.serverPath ++ cString index }
    refine .inl ⟨h, _, resp', hr, hx, ?_⟩
    rw [← hx]
  · rw [if_neg fun hn => h (hfits.mp hn)]
    exact .inr ⟨h, rfl⟩

/-- One case for each branch that ends in a `strcat`. -/
theorem onRequest_builds (env : Environment) (s : Application) (req : HttpRequest)
    (resp : HttpResponse) : s.Builds (s.onRequest env req resp) (s.fileName env req) := by
  have hpage : ∀ (f : Application → HttpResponse) (u : Application),
      ∃ resp', (do return (u, f u) : Result (Application × HttpResponse)) = .ok (u, resp') :=
    fun f u => ⟨f u, rfl⟩
  simp only [onRequest, fileName, register, login]
  split_ifs with hindex hregister hpost hhas hexec hwelcome hjpg hlogin huser hpasswd
  · exact builds_setRealFile rfl (hpage _)
  · exact builds_setRealFile rfl (hpage _)
  · exact ⟨_, rfl⟩
  · exact builds_setRealFile rfl (hpage _)
  · exact builds_setRealFile rfl (hpage _)
  · exact builds_setRealFile rfl (hpage _)
  · refine builds_setRealFile rfl fun u => ?_
    split <;> exact ⟨_, rfl⟩
  · exact builds_setRealFile rfl (hpage _)
  · exact builds_setRealFile rfl (hpage _)
  · exact builds_setRealFile rfl (hpage _)
  · exact builds_setRealFile rfl (hpage _)

/-- The names of the pages, all of them short. -/
def pages : List Bytes :=
  [ascii "/index.html", ascii "/register.html", ascii "/welcome.html",
    ascii "/registerFailed.html", ascii "/loginFailed.html", ascii "/404.html"]

def IsImage (req : HttpRequest) : Prop := contains (ascii ".jpg") req.path = true

instance (req : HttpRequest) : Decidable (IsImage req) := inferInstanceAs (Decidable (_ = _))

/-- A request builds the path it names, the name of a page or, when an insertion has been refused,
nothing. -/
theorem fileName_cases (env : Environment) (s : Application) (req : HttpRequest) :
    (IsImage req ∧ ¬ FailsToInsert env s req ∧ s.fileName env req = some req.path) ∨
      (¬ IsImage req ∧ FailsToInsert env s req ∧ s.fileName env req = none) ∨
      (¬ IsImage req ∧ ¬ FailsToInsert env s req ∧
        ∃ page ∈ pages, s.fileName env req = some page) := by
  have hfixed : ∀ path ∈ [ascii "/", ascii "/index.html", ascii "/register", ascii "/welcome"],
      contains (ascii ".jpg") path = false := by decide
  by_cases himage : IsImage req
  · have hne : ∀ path ∈ [ascii "/", ascii "/index.html", ascii "/register", ascii "/welcome"],
        req.path ≠ path := by
      intro path hm he
      have hno := hfixed path hm
      rw [← he, himage] at hno
      cases hno
    refine .inl ⟨himage, fun hf => hne _ (by simp) hf.register.2, ?_⟩
    have himage' : contains (ascii ".jpg") req.path = true := himage
    simp [fileName, hne, himage']
  · refine .inr ?_
    by_cases hf : FailsToInsert env s req
    · obtain ⟨⟨hpost, hpath⟩, hbody, hfree, hexec⟩ := id hf
      refine .inl ⟨himage, hf, ?_⟩
      have hindex : ¬ (req.path = ascii "/" ∨ req.path = ascii "/index.html") := by
        rw [hpath]
        decide
      rw [fileName, if_neg hindex, if_pos hpath, if_pos (And.intro hpost hbody)]
      simp [hfree, hexec]
    · refine .inr ⟨himage, hf, ?_⟩
      unfold fileName
      split_ifs with hindex hregister hpost hhas hexec hwelcome hjpg hlogin huser hpasswd
      · exact ⟨_, by decide, rfl⟩
      · exact ⟨_, by decide, rfl⟩
      · exact absurd ⟨⟨hpost.1, hregister⟩, hpost.2, hhas, hexec⟩ hf
      · exact ⟨_, by decide, rfl⟩
      · exact ⟨_, by decide, rfl⟩
      · exact ⟨_, by decide, rfl⟩
      · exact absurd hjpg himage
      · exact ⟨_, by decide, rfl⟩
      · exact ⟨_, by decide, rfl⟩
      · exact ⟨_, by decide, rfl⟩
      · exact ⟨_, by decide, rfl⟩

theorem cString_length_le (text : Bytes) : (cString text).length ≤ text.length :=
  (List.takeWhile_prefix _).length_le

theorem fits_page (hlen : s.serverPath.length ≤ 179) {page : Bytes} (hp : page ∈ pages) :
    s.Fits page := by
  have hshort : ∀ page ∈ pages, (cString page).length ≤ 20 := by decide
  have hpage := hshort page hp
  have hroot := cString_length_le s.serverPath
  unfold Fits FILENAME_LEN
  omega

/-- With a root of at most 179 bytes the copies of a request stay within `realFile_` exactly if it
asks for no image, or for one whose name fits behind the root. -/
theorem fileName_fits_iff (hlen : s.serverPath.length ≤ 179) (env : Environment)
    (req : HttpRequest) (resp : HttpResponse) :
    ((∃ t resp', s.onRequest env req resp = .ok (t, resp') ∧
        (t.realFile = s.realFile ∨ t.realFile.length ≤ FILENAME_LEN - 1)) ↔
      (contains (ascii ".jpg") req.path = true →
        (cString s.serverPath).length + (cString req.path).length ≤ 199)) ∧
    (s.onRequest env req resp = .error .outOfBounds ↔
      contains (ascii ".jpg") req.path = true ∧
        199 < (cString s.serverPath).length + (cString req.path).length) := by
  have hbuild := onRequest_builds env s req resp
  rcases fileName_cases env s req with ⟨himage, -, hname⟩ | ⟨himage, -, hname⟩ |
    ⟨himage, -, page, hpage, hname⟩
  · rw [hname] at hbuild
    have himage' : contains (ascii ".jpg") req.path = true := himage
    rcases hbuild with ⟨hfits, t, resp', hr, -, hfile⟩ | ⟨hfits, hr⟩
    · have hle : (cString s.serverPath).length + (cString req.path).length ≤ 199 := hfits
      refine ⟨iff_of_true ⟨t, resp', hr, .inr ?_⟩ fun _ => hle, ?_⟩
      · rw [hfile, List.length_append]
        exact hfits
      · simp [hr, hle]
    · have hlt : ¬ (cString s.serverPath).length + (cString req.path).length ≤ 199 := hfits
      refine ⟨iff_of_false ?_ fun h => hlt (h himage), ?_⟩
      · rintro ⟨t, resp', h, -⟩
        rw [hr] at h
        cases h
      · simp [hr, himage', Nat.lt_of_not_le hlt]
  · rw [hname] at hbuild
    obtain ⟨resp', hr⟩ := hbuild
    refine ⟨iff_of_true ⟨s, resp', hr, .inl rfl⟩ fun h => absurd h himage, ?_⟩
    rw [hr]
    exact iff_of_false (by simp) fun h => himage h.1
  · rw [hname] at hbuild
    rcases hbuild with ⟨hfits, t, resp', hr, -, hfile⟩ | ⟨hfits, -⟩
    · refine ⟨iff_of_true ⟨t, resp', hr, .inr ?_⟩ fun h => absurd h himage, ?_⟩
      · rw [hfile, List.length_append]
        exact hfits
      · rw [hr]
        exact iff_of_false (by simp) fun h => himage h.1
    · exact absurd (fits_page hlen hpage) hfits

end Application

def server : Application := .new .hashMap (ascii "/srv") []

theorem fileName_fits_short :
    contains (ascii ".jpg") (ascii "/a.jpg") = true ∧ ∃ t resp',
      server.onRequest emptyServer ⟨.kGet, .kHttp11, ascii "/a.jpg", [], 0, [], []⟩ (.new false) =
        .ok (t, resp') := by
  obtain ⟨hiff, -⟩ := Application.fileName_fits_iff (s := server) (by decide) emptyServer
    ⟨.kGet, .kHttp11, ascii "/a.jpg", [], 0, [], []⟩ (.new false)
  obtain ⟨t, resp', hr, -⟩ := hiff.mpr fun _ => by decide
  exact ⟨by decide, t, resp', hr⟩

theorem contains_append {needle : Bytes} (hn : needle ≠ []) (front : Bytes) :
    contains needle (front ++ needle) = true := by
  unfold contains
  by_contra h
  have hnone : Search.memmem needle (front ++ needle) = none := by simpa using h
  refine (Search.memmem_eq_none_iff hn).mp hnone front.length ?_
  rw [List.drop_left]

/-- The path of an image with a long name. -/
def longPath : Bytes := 47 :: List.replicate 201 97 ++ ascii ".jpg"

theorem longPath_bytes {c : UInt8} (h : c ∈ longPath) : c = 47 ∨ c = 97 ∨ c ∈ ascii ".jpg" := by
  rcases List.mem_append.mp h with h | h
  · exact (List.mem_cons.mp h).imp_right fun h => .inl (List.eq_of_mem_replicate h)
  · exact .inr (.inr h)

theorem parseRequest_longPath :
    ∃ ctx, HttpContext.fresh.parseRequest .release
        (requestLineText .kGet longPath [] .kHttp11 ++ kCRLF ++ kCRLF) 0 = .ok (true, ctx, []) ∧
      ctx.gotAll = true ∧ ctx.request.path = longPath := by
  have hno : ∀ c : UInt8, c ≠ 47 ∧ c ≠ 97 ∧ c ∉ ascii ".jpg" → c ∉ longPath := by
    rintro c ⟨h₁, h₂, h₃⟩ hm
    rcases longPath_bytes hm with h | h | h
    · exact h₁ h
    · exact h₂ h
    · exact h₃ h
  have hspace : (32 : UInt8) ∉ longPath := hno 32 (by decide)
  have hmark : (63 : UInt8) ∉ longPath := hno 63 (by decide)
  have hcr : (13 : UInt8) ∉ longPath := hno 13 (by decide)
  have hline : findCRLF (requestLineText .kGet longPath [] .kHttp11) = none := by
    refine findCRLF_of_notMem ?_
    simp only [requestLineText, List.append_nil, List.mem_append, List.mem_cons, not_or]
    exact ⟨by decide, by decide, hcr, by decide, by decide⟩
  have hparsed := @requestLine_requestLineText .kGet longPath [] .kHttp11 (by decide) (by decide)
    ⟨hspace, hmark⟩ (.inl rfl)
  have hparse := parseRequest_lines .release 0 hline hparsed [] (by simp) []
  simp only [List.flatMap_nil, List.nil_append, List.append_nil] at hparse
  exact ⟨_, hparse, rfl, rfl⟩

/-- A name of 210 bytes for a buffer of 200. -/
theorem image_name_overflows :
    ∃ ctx, HttpContext.fresh.parseRequest .release
        (requestLineText .kGet longPath [] .kHttp11 ++ kCRLF ++ kCRLF) 0 = .ok (true, ctx, []) ∧
      ctx.gotAll = true ∧ server.serverPath.length ≤ 179 ∧
      server.onRequest emptyServer ctx.request (.new false) = .error .outOfBounds := by
  obtain ⟨ctx, hparse, hall, hpath⟩ := parseRequest_longPath
  refine ⟨ctx, hparse, hall, by decide, ?_⟩
  have himage : Application.IsImage ctx.request := by
    unfold Application.IsImage
    rw [hpath]
    exact contains_append (by decide) _
  have hbuild := Application.onRequest_builds emptyServer server ctx.request (.new false)
  rcases Application.fileName_cases emptyServer server ctx.request with
    ⟨-, -, hname⟩ | ⟨h, -⟩ | ⟨h, -⟩
  · rw [hname, hpath] at hbuild
    rcases hbuild with ⟨hfits, -⟩ | ⟨-, hr⟩
    · have hzero : (0 : UInt8) ∉ longPath := fun hm => absurd (longPath_bytes hm) (by decide)
      have hlen : (cString longPath).length = 206 := by
        rw [cString_of_notMem hzero, longPath, List.length_append, List.length_cons,
          List.length_replicate]
        rfl
      unfold Application.Fits at hfits
      rw [hlen] at hfits
      exact absurd hfits (by decide)
    · exact hr
  · exact absurd himage h
  · exact absurd himage h

end Lute.Http
