import Lute.Http.FileNames
import Lute.Lib.LexicalPath

/-! Where the files lie that requests are answered with. -/
namespace Lute.Http

open LexicalPath

/-- A request in its environment, and the file it was answered with. -/
structure Served where
  env : Environment
  req : HttpRequest
  resp : HttpResponse
  page : Bytes

/-- The application as it answers one request after the other. -/
def serving (serverPath : Bytes) (rows : List UserRow) : Trace.LTS Application Served where
  init s := ∃ redis, s = .new redis serverPath rows
  step s a t := ∃ resp', s.onRequest a.env a.req a.resp = .ok (t, resp') ∧ a.page = t.realFile

/-- The normal form of `name` lies below that of `root`, with `/` between components. -/
def InRoot (root name : Bytes) : Prop := Below 47 46 root name

/-- What the path of a request must be like for the file to lie below `root`. -/
structure Confined (root : Bytes) (s : Application) (a : Served) : Prop where
  image : Application.IsImage a.req → Stays 47 46 root (cString a.req.path)
  refused : FailsToInsert a.env s a.req → s.realFile ≠ []
  page : ¬ Application.IsImage a.req → ¬ FailsToInsert a.env s a.req → root ≠ []

namespace Application

variable {s t : Application} {env env' : Environment} {req : HttpRequest}
  {resp resp' : HttpResponse}

theorem foldl_realFile (redis : Redis) (rows : List UserRow) (s : Application)
    (h : s.realFile = []) :
    (rows.foldl (fun s row => s.setHField redis row.username row.passwd) s).realFile = [] := by
  induction rows generalizing s with
  | nil => exact h
  | cons row rows ih => exact ih _ h

theorem inRoot_page {root page : Bytes} (hp : page ∈ pages) :
    InRoot root (root ++ cString page) ↔ root ≠ [] := by
  have hname : ∀ page ∈ pages, (cString page).head? = some 47 ∧
      (47 : UInt8) ∉ (cString page).tail ∧ (cString page).tail ≠ [] ∧
      (cString page).tail ≠ [46] ∧ (cString page).tail ≠ [46, 46] := by
    decide
  obtain ⟨hhead, hsep, hne, hdot⟩ := hname page hp
  have hsplit : cString page = 47 :: (cString page).tail := (List.cons_head?_tail hhead).symm
  unfold InRoot
  rw [below_append_iff]
  constructor
  · intro h hroot
    exact h.1 hroot hhead
  · intro hroot
    rw [hsplit]
    exact stays_name hroot hsep hne hdot

/-- Both computations go through the same state and look at its file only. -/
theorem reads_bind {x : Result Application}
    {f g : Application → Result (Application × HttpResponse)} (hx : (x >>= f) = .ok (t, resp'))
    (hf : ∀ u p, f u = .ok p → p.1 = u) (hfg : g t = f t) : (x >>= g) = x >>= f := by
  cases x with
  | error e => rfl
  | ok u =>
    obtain rfl : t = u := hf u (t, resp') hx
    exact hfg

theorem getHtml_congr (hf : env'.files t.realFile = env.files t.realFile) :
    t.getHtml env' = t.getHtml env := by
  simp only [getHtml, hf]

/-- A request looks at no file but the one it ends with. -/
theorem onRequest_reads (hr : s.onRequest env req resp = .ok (t, resp'))
    (hf : env'.files t.realFile = env.files t.realFile) (he : env'.execute = env.execute)
    (hd : env'.redis = env.redis) : s.onRequest env' req resp = .ok (t, resp') := by
  have hpage := getHtml_congr hf
  have hreg : s.register env' req.body = s.register env req.body := by
    simp only [register, he, hd]
  have hret : ∀ (f : Application → HttpResponse) (u : Application) p,
      (do return (u, f u) : Result (Application × HttpResponse)) = .ok p → p.1 = u := by
    intro f u p h
    obtain rfl : (u, f u) = p := Except.ok.inj h
    rfl
  rw [← hr]
  simp only [onRequest, hreg, hd] at hr ⊢
  split_ifs at hr ⊢ with hindex hregister hpost hwelcome hjpg hlogin
  · exact reads_bind hr (hret _) (by simp only [hpage])
  · exact reads_bind hr (hret _) (by simp only [hpage])
  · exact reads_bind hr (hret _) (by simp only [hpage])
  · exact reads_bind hr (hret _) (by simp only [hpage])
  · refine reads_bind hr (fun u p h => ?_) (by simp only [hf])
    split at h <;> exact congrArg Prod.fst (Except.ok.inj h).symm
  · exact reads_bind hr (hret _) (by simp only [hpage])
  · exact reads_bind hr (hret _) (by simp only [hpage])

end Application

variable {serverPath : Bytes} {rows : List UserRow} {h : List Served} {s t : Application}
  {a : Served}

/-- The file named last is none, or lies below the root. -/
structure RootInv (serverPath : Bytes) (s : Application) : Prop where
  path : s.serverPath = serverPath
  file : s.realFile = [] ∨ InRoot (cString serverPath) s.realFile

theorem not_inRoot_nil (root : Bytes) : ¬ InRoot root [] := by
  intro h
  obtain ⟨-, -, -, hlt⟩ := h
  have hnil : (normalise (47 : UInt8) 46 []).2.names = [] := by decide
  rw [hnil] at hlt
  exact absurd hlt (Nat.not_lt_zero _)

theorem RootInv.serving_step (hi : RootInv serverPath s)
    (hs : (serving serverPath rows).step s a t) : t.serverPath = serverPath ∧
      (InRoot (cString serverPath) a.page ↔ Confined (cString serverPath) s a) := by
  obtain ⟨resp', hr, hpage⟩ := hs
  have hbuild := Application.onRequest_builds a.env s a.req a.resp
  rw [hr] at hbuild
  have hnamed : ∀ index, s.Builds (.ok (t, resp')) (some index) → t.serverPath = serverPath ∧
      a.page = cString serverPath ++ cString index := by
    intro index hb
    rcases hb with ⟨-, u, resp'', hu, hpath, hfile⟩ | ⟨-, hu⟩
    · obtain ⟨rfl, -⟩ := Prod.mk.inj (Except.ok.inj hu)
      rw [hi.path] at hpath hfile
      exact ⟨hpath, hpage.trans hfile⟩
    · cases hu
  rcases Application.fileName_cases a.env s a.req with ⟨himage, hfails, hname⟩ |
    ⟨himage, hfails, hname⟩ | ⟨himage, hfails, page, hmem, hname⟩
  · rw [hname] at hbuild
    obtain ⟨hpath, hfile⟩ := hnamed _ hbuild
    refine ⟨hpath, ?_⟩
    rw [hfile, InRoot, below_append_iff]
    exact ⟨fun h => ⟨fun _ => h, fun hf => absurd hf hfails, fun hn => absurd himage hn⟩,
      fun h => h.image himage⟩
  · rw [hname] at hbuild
    obtain ⟨resp'', hu⟩ := hbuild
    obtain ⟨rfl, -⟩ := Prod.mk.inj (Except.ok.inj hu)
    refine ⟨hi.path, ?_⟩
    rw [hpage]
    constructor
    · intro h
      refine ⟨fun hm => absurd hm himage, fun _ hnil => ?_, fun _ hn => absurd hfails hn⟩
      rw [hnil] at h
      exact not_inRoot_nil _ h
    · intro h
      exact hi.file.resolve_left (h.refused hfails)
  · rw [hname] at hbuild
    obtain ⟨hpath, hfile⟩ := hnamed _ hbuild
    refine ⟨hpath, ?_⟩
    rw [hfile, Application.inRoot_page hmem]
    exact ⟨fun h => ⟨fun hm => absurd hm himage, fun hf => absurd hf hfails, fun _ _ => h⟩,
      fun h => h.page himage hfails⟩

theorem rootInv_exec (he : ((serving serverPath rows).restrict
    (Confined (cString serverPath))).Exec h s) :
    RootInv serverPath s ∧ ∀ a ∈ h, InRoot (cString serverPath) a.page := by
  induction he with
  | start hi =>
    obtain ⟨redis, rfl⟩ := hi
    refine ⟨⟨Application.foldl_serverPath redis rows _, .inl ?_⟩, by simp⟩
    exact Application.foldl_realFile redis rows _ rfl
  | snoc _ hs ih =>
    obtain ⟨hinv, hall⟩ := ih
    obtain ⟨hc, hs⟩ := hs
    obtain ⟨hpath, hiff⟩ := hinv.serving_step hs
    have hin := hiff.mpr hc
    have hpage := hs.choose_spec.2
    refine ⟨⟨hpath, .inr (hpage ▸ hin)⟩, fun b hb => ?_⟩
    rcases List.mem_append.mp hb with hb | hb
    · exact hall b hb
    · obtain rfl := List.mem_singleton.mp hb
      exact hin

/-- Behind a root that is not empty, a path that begins with a slash, has no component `..` and no
null byte is confined. -/
theorem confined_of_plain {root : Bytes} (hroot : root ≠ []) (hhead : a.req.path.head? = some 47)
    (hdots : [46, 46] ∉ a.req.path.splitOnP (· = 47)) (hnull : 0 ∉ a.req.path)
    (hrefused : FailsToInsert a.env s a.req → s.realFile ≠ []) : Confined root s a where
  image himage := by
    obtain ⟨text, htext⟩ : ∃ text, a.req.path = 47 :: text :=
      ⟨_, (List.cons_head?_tail hhead).symm⟩
    have hj : (106 : UInt8) ∈ text := by
      obtain ⟨i, hi⟩ := Option.isSome_iff_exists.mp himage
      have hp := ((Search.memmem_eq_some_iff (by decide)).mp hi).1
      have hm : (106 : UInt8) ∈ a.req.path := List.mem_of_mem_drop (hp.subset (by decide))
      rw [htext] at hm
      exact (List.mem_cons.mp hm).resolve_left (by decide)
    rw [cString_of_notMem hnull, htext]
    rw [htext, List.splitOnP_cons_eq_if_modifyHead] at hdots
    have hsep : (106 : UInt8) ≠ 47 := by decide
    obtain ⟨c, hc, hm⟩ := mem_component hj hsep
    refine stays_plain hroot (by simpa using hdots) ⟨c, hc, ?_⟩
    rintro (rfl | rfl)
    · cases hm
    · exact absurd hm (by decide)
  refused := hrefused
  page _ _ := hroot

/-- As long as requests are confined every file lies below the root, and the next one does exactly
if it is confined too; it is the only file the request looks at. -/
theorem files_in_root_iff
    (he : ((serving serverPath rows).restrict (Confined (cString serverPath))).Exec h s) :
    (∀ a ∈ h, InRoot (cString serverPath) a.page) ∧
    ∀ a t, (serving serverPath rows).step s a t →
      (InRoot (cString serverPath) a.page ↔ Confined (cString serverPath) s a) ∧
      ∀ env', env'.files a.page = a.env.files a.page → env'.execute = a.env.execute →
        env'.redis = a.env.redis →
        s.onRequest env' a.req a.resp = s.onRequest a.env a.req a.resp := by
  obtain ⟨hinv, hall⟩ := rootInv_exec he
  refine ⟨hall, fun a t hs => ⟨(hinv.serving_step hs).2, fun env' hf hx hd => ?_⟩⟩
  obtain ⟨resp', hr, hpage⟩ := hs
  rw [hr]
  rw [hpage] at hf
  exact Application.onRequest_reads hr hf hx hd

def served (path page : Bytes) : Served := ⟨emptyServer, getPage path, .new false, page⟩

theorem not_failsToInsert_getPage (env : Environment) (s : Application) (path : Bytes) :
    ¬ FailsToInsert env s (getPage path) := by
  intro h
  exact absurd h.register.1 (by simp [getPage])

theorem files_in_root_cat :
    InRoot (ascii "/srv") (ascii "/srv/x/../cat.jpg") ∧
      (InRoot (cString (ascii "/srv")) (served (ascii "/d.jpg") (ascii "/srv/d.jpg")).page ↔
        Confined (cString (ascii "/srv")) ⟨ascii "/srv", ascii "/srv/x/../cat.jpg", fun _ => none⟩
          (served (ascii "/d.jpg") (ascii "/srv/d.jpg"))) ∧
      InRoot (cString (ascii "/srv")) (ascii "/srv/d.jpg") := by
  have he : ((serving (ascii "/srv") []).restrict (Confined (cString (ascii "/srv")))).Exec
      [served (ascii "/x/../cat.jpg") (ascii "/srv/x/../cat.jpg")]
      ⟨ascii "/srv", ascii "/srv/x/../cat.jpg", fun _ => none⟩ := by
    refine .snoc (h := []) (.start ⟨.hashMap, rfl⟩)
      ⟨⟨fun _ => ?_, fun h => ?_, fun _ _ => ?_⟩, _, rfl, rfl⟩
    · decide
    · exact absurd h (not_failsToInsert_getPage _ _ _)
    · decide
  obtain ⟨hall, hnext⟩ := files_in_root_iff he
  have hiff := (hnext (served (ascii "/d.jpg") (ascii "/srv/d.jpg")) _ ⟨_, rfl, rfl⟩).1
  refine ⟨hall _ (List.mem_singleton.mpr rfl), hiff, hiff.mpr ?_⟩
  refine confined_of_plain (by decide) rfl (by decide) (by decide) fun h => ?_
  exact absurd h (not_failsToInsert_getPage _ _ _)

/-- An image asked for beside the root. -/
theorem image_outside_root :
    ∃ ctx t, HttpContext.fresh.parseRequest .release
        (ascii "GET /../a.jpg HTTP/1.1" ++ kCRLF ++ kCRLF) 0 = .ok (true, ctx, []) ∧
      ctx.gotAll = true ∧
      (serving (ascii "/srv") []).step (.new .hashMap (ascii "/srv") [])
        ⟨emptyServer, ctx.request, .new false, ascii "/srv/../a.jpg"⟩ t ∧
      ¬ InRoot (ascii "/srv") (ascii "/srv/../a.jpg") := by
  refine ⟨_, _, rfl, rfl, ⟨_, rfl, rfl⟩, ?_⟩
  unfold InRoot
  decide

end Lute.Http
