import Lute.Http.Application

/-! The fields of a query or a form, and what the two patterns take from them. -/
namespace Lute.Http

open Pattern (Occurs Spells)

/-- The `name=value` fields of a query or a form. -/
def fields (s : Bytes) : List (Bytes × Bytes) :=
  (s.splitOnP (· = 38)).map fun f => (f.takeWhile (· ≠ 61), (f.dropWhile (· ≠ 61)).drop 1)

/-- The full value of the first field of that name. -/
def fieldValue (name s : Bytes) : Option Bytes := (fields s).lookup name

/-- The full values of the two fields. -/
def Carries (s username password : Bytes) : Prop :=
  fieldValue (ascii "Username") s = some username ∧
    fieldValue (ascii "password") s = some password

/-- Every occurrence of the pattern stands at the start, and its last group, taken as far as it
goes, is followed by the end or by another field. -/
def Whole (gs : Pattern.Groups UInt8) (s : Bytes) : Prop :=
  ∀ before texts rest, Occurs gs s before texts rest →
    before = [] ∧ ∀ c ∈ (rest.dropWhile alnum).head?, c = 38

section Fields

variable {name value s rest : Bytes}

theorem field_eq (hn : 61 ∉ name) : ((name ++ 61 :: value).takeWhile (· ≠ 61),
    ((name ++ 61 :: value).dropWhile (· ≠ 61)).drop 1) = (name, value) := by
  have hname : ∀ x ∈ name, decide (x ≠ 61) = true := by
    intro x hx
    exact decide_eq_true fun h => hn (h ▸ hx)
  rw [List.takeWhile_append_of_pos hname, List.dropWhile_append_of_pos hname]
  simp

theorem fields_cons (hn : 38 ∉ name ∧ 61 ∉ name) (hv : 38 ∉ value) :
    fields (name ++ 61 :: (value ++ 38 :: s)) = (name, value) :: fields s := by
  have hmem : ∀ x ∈ name ++ 61 :: value, decide (x = 38) = false := by
    intro x hx
    refine decide_eq_false ?_
    rintro rfl
    simp [hn.1, hv] at hx
  rw [← List.cons_append, ← List.append_assoc, fields,
    List.splitOnP_append_cons_of_forall_mem hmem 38 (by simp), List.map_cons, field_eq hn.2]
  rfl

theorem fieldValue_cons_self (hn : 38 ∉ name ∧ 61 ∉ name) (hv : 38 ∉ value)
    (hr : ∀ c ∈ rest.head?, c = 38) :
    fieldValue name (name ++ 61 :: (value ++ rest)) = some value := by
  cases rest with
  | nil =>
    have hmem : ∀ x ∈ name ++ 61 :: value, decide (x = 38) = false := by
      intro x hx
      refine decide_eq_false ?_
      rintro rfl
      simp [hn.1, hv] at hx
    rw [List.append_nil, fieldValue, fields, List.splitOnP_eq_singleton hmem, List.map_singleton,
      field_eq hn.2]
    simp
  | cons d s =>
    obtain rfl : d = 38 := hr d rfl
    rw [fieldValue, fields_cons hn hv]
    simp

theorem fieldValue_cons_of_ne {other : Bytes} (hn : 38 ∉ name ∧ 61 ∉ name) (hv : 38 ∉ value)
    (ho : other ≠ name) :
    fieldValue other (name ++ 61 :: (value ++ 38 :: s)) = fieldValue other s := by
  rw [fieldValue, fields_cons hn hv, List.lookup_cons, beq_eq_false_iff_ne.mpr ho, fieldValue]

end Fields

theorem notMem_alnum {c : UInt8} (hc : alnum c = false) {v : Bytes}
    (hv : ∀ d ∈ v, alnum d = true) : c ∉ v := by
  intro hm
  simp [hv c hm] at hc

section Patterns

variable {q body : Bytes} {texts : List Bytes} {rest : Bytes}

/-- What an occurrence of the login pattern is made of. -/
theorem login_texts (h : List.Forall₂ Spells loginPattern texts) :
    ∃ u p, texts = [ascii "?Username=", u, ascii "&password=", p] ∧ (∀ c ∈ u, alnum c = true) ∧
      ∀ c ∈ p, alnum c = true := by
  cases h with
  | cons h₀ h =>
    cases h with
    | cons h₁ h =>
      cases h with
      | cons h₂ h =>
        cases h with
        | @cons _ p _ _ h₃ h =>
          cases h
          obtain rfl := Pattern.spells_literal h₀
          obtain rfl := Pattern.spells_literal h₂
          exact ⟨_, p, rfl, (Pattern.spells_plus h₁).2, (Pattern.spells_plus h₃).2⟩

theorem login_flatten_ne (h : List.Forall₂ Spells loginPattern texts) : texts.flatten ≠ [] := by
  obtain ⟨u, p, rfl, -⟩ := login_texts h
  simp [ascii]

/-- A login either names nobody, or the full values of its fields. -/
theorem login_carries (h : Whole loginPattern q) :
    lastGroup loginPattern 1 q = [] ∨
      Carries (q.drop 1) (lastGroup loginPattern 1 q) (lastGroup loginPattern 3 q) := by
  rcases Pattern.findAll_of_start (fun _ => login_flatten_ne) fun b ts r ho => (h b ts r ho).1 with
    ⟨hall, -⟩ | ⟨texts, rest, hall, hm⟩
  · exact .inl (by simp [lastGroup, hall])
  · right
    have hocc := Pattern.matchGroups_sound hm
    have hgreedy := Pattern.matchGroups_plus (loginPattern.take 3) hm
    obtain ⟨u, p, rfl, hu, hp⟩ := login_texts hocc.2
    have hrest : ∀ c ∈ rest.head?, c = 38 := by
      have := (h _ _ _ hocc).2
      cases rest with
      | nil => simp
      | cons d r => simpa [hgreedy d rfl] using this
    have hq : q.drop 1 = ascii "Username" ++ 61 :: (u ++ 38 :: (ascii "password" ++ 61 ::
        (p ++ rest))) := by
      rw [hocc.1]
      simp [ascii]
    have hn : 38 ∉ ascii "Username" ∧ 61 ∉ ascii "Username" := by decide
    have hn' : 38 ∉ ascii "password" ∧ 61 ∉ ascii "password" := by decide
    have hl1 : lastGroup loginPattern 1 q = u := by simp [lastGroup, hall]
    have hl3 : lastGroup loginPattern 3 q = p := by simp [lastGroup, hall]
    rw [hl1, hl3, hq]
    constructor
    · exact fieldValue_cons_self hn (notMem_alnum (by decide) hu) (by simp)
    · rw [fieldValue_cons_of_ne hn (notMem_alnum (by decide) hu) (by decide)]
      exact fieldValue_cons_self hn' (notMem_alnum (by decide) hp) hrest

theorem mail_bytes {e : Bytes} (h : Spells (.plus alnum :: Pattern.literal (ascii "%40") ++
    .plus alpha :: Pattern.literal (ascii ".com")) e) :
    ∀ c ∈ e, alnum c = true ∨ c = 37 ∨ c = 46 := by
  rw [List.cons_append] at h
  cases h with
  | @plus _ a _ _ _ ha hrest =>
    obtain ⟨t, rfl, ht⟩ := Pattern.Spells.of_literal (ascii "%40") hrest
    cases ht with
    | @plus _ b _ _ _ hb hcom =>
      obtain rfl := Pattern.spells_literal hcom
      have hat : ∀ c ∈ ascii "%40", alnum c = true ∨ c = 37 ∨ c = 46 :=
        List.forall_iff_forall_mem.mp (by decide)
      have hdot : ∀ c ∈ ascii ".com", alnum c = true ∨ c = 37 ∨ c = 46 :=
        List.forall_iff_forall_mem.mp (by decide)
      intro c hc
      simp only [List.mem_append] at hc
      rcases hc with hc | hc | hc | hc
      · exact .inl (ha c hc)
      · exact hat c hc
      · exact .inl (by simp [alnum, hb c hc])
      · exact hdot c hc

/-- What an occurrence of the registration pattern is made of. -/
theorem register_groups (h : List.Forall₂ Spells registerPattern texts) :
    ∃ u e p, texts = [ascii "Username=", u, ascii "&email=", e, ascii "&password=", p] ∧
      u ≠ [] ∧ (∀ c ∈ u, alnum c = true ∨ c = 95) ∧
      (∀ c ∈ e, alnum c = true ∨ c = 37 ∨ c = 46) ∧ ∀ c ∈ p, alnum c = true := by
  cases h with
  | cons h₀ h =>
    cases h with
    | cons h₁ h =>
      cases h with
      | cons h₂ h =>
        cases h with
        | @cons _ e _ _ h₃ h =>
          cases h with
          | cons h₄ h =>
            cases h with
            | @cons _ p _ _ h₅ h =>
              cases h
              obtain rfl := Pattern.spells_literal h₀
              obtain rfl := Pattern.spells_literal h₂
              obtain rfl := Pattern.spells_literal h₄
              obtain ⟨hne, hu⟩ := Pattern.spells_plus h₁
              exact ⟨_, e, p, rfl, hne, by simpa using hu, mail_bytes h₃,
                (Pattern.spells_plus h₅).2⟩

theorem register_texts (h : List.Forall₂ Spells registerPattern texts) :
    ∃ u e p, texts = [ascii "Username=", u, ascii "&email=", e, ascii "&password=", p] ∧
      u ≠ [] ∧ 38 ∉ u ∧ 38 ∉ e ∧ 38 ∉ p := by
  obtain ⟨u, e, p, rfl, hne, hu, he, hp⟩ := register_groups h
  refine ⟨u, e, p, rfl, hne, fun hm => ?_, fun hm => ?_, notMem_alnum (by decide) hp⟩
  · exact absurd (hu 38 hm) (by decide)
  · exact absurd (he 38 hm) (by decide)

theorem register_flatten_ne (h : List.Forall₂ Spells registerPattern texts) :
    texts.flatten ≠ [] := by
  obtain ⟨u, e, p, rfl, -⟩ := register_texts h
  simp [ascii]

/-- A registration stores the full values of its fields. -/
theorem register_carries (h : Whole registerPattern body)
    (hex : ∃ before texts rest, Occurs registerPattern body before texts rest) :
    lastGroup registerPattern 1 body ≠ [] ∧
      Carries body (lastGroup registerPattern 1 body) (lastGroup registerPattern 5 body) := by
  rcases Pattern.findAll_of_start (fun _ => register_flatten_ne) fun b ts r ho => (h b ts r ho).1
    with ⟨-, hnone⟩ | ⟨texts, rest, hall, hm⟩
  · obtain ⟨before, texts, rest, ho⟩ := hex
    simpa [hnone] using Pattern.search_complete ho
  · have hocc := Pattern.matchGroups_sound hm
    have hgreedy := Pattern.matchGroups_plus (registerPattern.take 5) hm
    obtain ⟨u, e, p, rfl, hu, hu', he, hp⟩ := register_texts hocc.2
    have hrest : ∀ c ∈ rest.head?, c = 38 := by
      have := (h _ _ _ hocc).2
      cases rest with
      | nil => simp
      | cons d r => simpa [hgreedy d rfl] using this
    have hbody : body = ascii "Username" ++ 61 :: (u ++ 38 :: (ascii "email" ++ 61 :: (e ++ 38 ::
        (ascii "password" ++ 61 :: (p ++ rest))))) := by
      rw [hocc.1]
      simp [ascii]
    have hn : 38 ∉ ascii "Username" ∧ 61 ∉ ascii "Username" := by decide
    have hn' : 38 ∉ ascii "email" ∧ 61 ∉ ascii "email" := by decide
    have hn'' : 38 ∉ ascii "password" ∧ 61 ∉ ascii "password" := by decide
    have hl1 : lastGroup registerPattern 1 body = u := by simp [lastGroup, hall]
    have hl5 : lastGroup registerPattern 5 body = p := by simp [lastGroup, hall]
    rw [hl1, hl5, hbody]
    refine ⟨hu, fieldValue_cons_self hn hu' (by simp), ?_⟩
    rw [fieldValue_cons_of_ne hn hu' (by decide), fieldValue_cons_of_ne hn' he (by decide)]
    exact fieldValue_cons_self hn'' hp hrest

/-- A text whose first byte does not come again can only be matched from its beginning by what
holds that byte. -/
theorem before_eq_nil {d : UInt8} {text before body rest : Bytes} (hd : d ∉ text.tail)
    (hb : d ∈ body) (he : text = before ++ body ++ rest) : before = [] := by
  cases before with
  | nil => rfl
  | cons c before =>
    refine absurd ?_ hd
    rw [he]
    simp [hb]

end Patterns

section Forms

variable {u m p before rest : Bytes} {texts : List Bytes}

/-- The username, mail and password that the registration pattern takes whole. -/
structure Registrable (username mail password : Bytes) : Prop where
  username : Spells [.plus fun c => alnum c || c = 95] username
  mail : Spells (.plus alnum :: Pattern.literal (ascii "%40") ++
    .plus alpha :: Pattern.literal (ascii ".com")) mail
  password : Spells [.plus alnum] password

def registerBody (username mail password : Bytes) : Bytes :=
  ascii "Username=" ++ username ++ ascii "&email=" ++ mail ++ ascii "&password=" ++ password

def loginQuery (username password : Bytes) : Bytes :=
  ascii "?Username=" ++ username ++ ascii "&password=" ++ password

theorem takeWhile_before {c : UInt8} {x s : Bytes} (hx : c ∉ x) :
    (x ++ c :: s).takeWhile (· ≠ c) = x := by
  have hpos : ∀ d ∈ x, decide (d ≠ c) = true := fun d hd =>
    decide_eq_true fun h => hx (h ▸ hd)
  rw [List.takeWhile_append_of_pos hpos]
  simp

/-- Two texts cut at the first occurrence of a byte. -/
theorem cut_unique {c : UInt8} {x y s t : Bytes} (hx : c ∉ x) (hy : c ∉ y)
    (h : x ++ c :: s = y ++ c :: t) : x = y ∧ s = t := by
  have hxy : x = y := by
    rw [← takeWhile_before hx, h, takeWhile_before hy]
  subst hxy
  exact ⟨rfl, by simpa using h⟩

theorem notMem_word {c : UInt8} (hc : (alnum c || c = 95) = false) {v : Bytes}
    (hv : ∀ d ∈ v, (alnum d || d = 95) = true) : c ∉ v := by
  intro hm
  simp [hv c hm] at hc

/-- Where the login pattern occurs in the query of a registered user. -/
theorem login_occurs (hu : ∀ c ∈ u, (alnum c || c = 95) = true) (hp : ∀ c ∈ p, alnum c = true)
    (h : Occurs loginPattern (loginQuery u p) before texts rest) :
    before = [] ∧ (∀ c ∈ u, alnum c = true) ∧
      ∃ p', texts = [ascii "?Username=", u, ascii "&password=", p'] ∧ p = p' ++ rest := by
  obtain ⟨he, hsp⟩ := h
  obtain ⟨u', p', rfl, hu', -⟩ := login_texts hsp
  have hmu : (63 : UInt8) ∉ u := notMem_word (by decide) hu
  have hmp : (63 : UInt8) ∉ p := notMem_alnum (by decide) hp
  obtain rfl : before = [] :=
    before_eq_nil (d := 63) (by simp [loginQuery, ascii, hmu, hmp]) (by simp [ascii]) he
  have hcut : u ++ 38 :: (ascii "password=" ++ p) =
      u' ++ 38 :: (ascii "password=" ++ (p' ++ rest)) := by
    simpa [loginQuery, ascii] using he
  obtain ⟨rfl, htail⟩ := cut_unique (notMem_word (by decide) hu) (notMem_alnum (by decide) hu') hcut
  exact ⟨rfl, hu', p', rfl, List.append_cancel_left htail⟩

/-- Where the registration pattern occurs in the body of a registration. -/
theorem register_occurs (hr : Registrable u m p)
    (h : Occurs registerPattern (registerBody u m p) before texts rest) :
    before = [] ∧ ∃ p', p = p' ++ rest ∧
      texts = [ascii "Username=", u, ascii "&email=", m, ascii "&password=", p'] := by
  obtain ⟨he, hsp⟩ := h
  obtain ⟨u', m', p', rfl, -, hu', hm', hp'⟩ := register_texts hsp
  have hu : (38 : UInt8) ∉ u := notMem_word (by decide) (Pattern.spells_plus hr.username).2
  have hu61 : (61 : UInt8) ∉ u := notMem_word (by decide) (Pattern.spells_plus hr.username).2
  have hm : (38 : UInt8) ∉ m := fun h => absurd (mail_bytes hr.mail 38 h) (by decide)
  have hp : (38 : UInt8) ∉ p := notMem_alnum (by decide) (Pattern.spells_plus hr.password).2
  -- the two ampersands of the body are those of the occurrence
  have hb : (38 : UInt8) ∉ before := by
    have hc := congrArg (List.count 38) he
    simp [registerBody, ascii, List.count_eq_zero.mpr hu,
      List.count_eq_zero.mpr hm, List.count_eq_zero.mpr hp, List.count_eq_zero.mpr hu',
      List.count_eq_zero.mpr hm', List.count_eq_zero.mpr hp'] at hc
    exact List.count_eq_zero.mp (by omega)
  have hcut : (ascii "Username" ++ 61 :: u) ++ 38 :: (ascii "email=" ++ (m ++ 38 ::
      (ascii "password=" ++ p))) = (before ++ ascii "Username" ++ 61 :: u') ++ 38 ::
      (ascii "email=" ++ (m' ++ 38 :: (ascii "password=" ++ (p' ++ rest)))) := by
    simpa [registerBody, ascii] using he
  obtain ⟨hname, htail⟩ := cut_unique (by simpa [hu] using by decide)
    (by simpa [hu', hb] using by decide) hcut
  obtain ⟨rfl, hpass⟩ := cut_unique hm hm' (List.append_cancel_left htail)
  have hb61 : (61 : UInt8) ∉ before := by
    have hc := congrArg (List.count 61) hname
    simp [ascii, List.count_eq_zero.mpr hu61] at hc
    exact List.count_eq_zero.mp (by omega)
  obtain ⟨hlen, rfl⟩ := cut_unique (by decide) (by simpa [hb61] using by decide) hname
  obtain rfl : before = [] := by simpa using congrArg List.length hlen
  exact ⟨rfl, p', List.append_cancel_left hpass, rfl⟩

/-- A body of just the three fields. -/
theorem registerBody_occurs (hr : Registrable u m p) : Occurs registerPattern (registerBody u m p)
    [] [ascii "Username=", u, ascii "&email=", m, ascii "&password=", p] [] :=
  ⟨by simp [registerBody], .cons (Pattern.literal_spells _) (.cons hr.username
    (.cons (Pattern.literal_spells _) (.cons hr.mail (.cons (Pattern.literal_spells _)
      (.cons hr.password .nil)))))⟩

theorem whole_register (hr : Registrable u m p) : Whole registerPattern (registerBody u m p) := by
  intro before texts rest ho
  obtain ⟨rfl, p', hp, -⟩ := register_occurs hr ho
  have hnil : rest.dropWhile alnum = [] := List.dropWhile_eq_nil_iff.mpr fun c hc =>
    (Pattern.spells_plus hr.password).2 c (hp ▸ List.mem_append_right p' hc)
  exact ⟨rfl, by simp [hnil]⟩

theorem registrable_of {a b : Bytes} (hu : u ≠ [] ∧ u.all (fun c => alnum c || c = 95) = true)
    (ha : a ≠ [] ∧ a.all alnum = true) (hb : b ≠ [] ∧ b.all alpha = true)
    (hp : p ≠ [] ∧ p.all alnum = true) :
    Registrable u (a ++ (ascii "%40" ++ (b ++ ascii ".com"))) p where
  username := Pattern.plus_spells hu.1 hu.2
  mail := by
    have hcom := (Pattern.plus_spells hb.1 hb.2).append (Pattern.literal_spells (ascii ".com"))
    have hat := (Pattern.literal_spells (ascii "%40")).append hcom
    exact (Pattern.plus_spells ha.1 ha.2).append hat
  password := Pattern.plus_spells hp.1 hp.2

theorem whole_login (hu : ∀ c ∈ u, alnum c = true) (hp : ∀ c ∈ p, alnum c = true) :
    Whole loginPattern (loginQuery u p) := by
  intro before texts rest ho
  have hword : ∀ c ∈ u, (alnum c || c = 95) = true := fun c hc => by simp [hu c hc]
  obtain ⟨rfl, -, p', -, he⟩ := login_occurs hword hp ho
  have hnil : rest.dropWhile alnum = [] :=
    List.dropWhile_eq_nil_iff.mpr fun c hc => hp c (he ▸ List.mem_append_right p' hc)
  exact ⟨rfl, by simp [hnil]⟩

end Forms

end Lute.Http
