-- SUMMARY: Cookie headers as lists of cookies, and when extractSession finds the session cookie among them.
import Mathlib.Data.List.TakeWhile
import NfEngine.Lib.Search
import NfEngine.Mgmt.HttpRouter

/-!
# The session cookie

`HttpRouter::extractSession` searches the whole header for `session=` and takes what
follows up to the next semicolon. The first cookie that contains that text anywhere
decides, whether its name is `session`, ends in `session`, or its value contains the
text.
-/

namespace NfEngine

open Lib.Search

/-- A cookie that a header can carry. -/
structure Cookie where
  name : Text
  value : Text
  name_ok : '=' ∉ name ∧ ';' ∉ name
  value_ok : ';' ∉ value

namespace Cookie

def text (c : Cookie) : Text := c.name ++ '=' :: c.value

/-- `n1=v1; n2=v2; ... ; nk=vk`. -/
def header : List Cookie → Text
  | [] => []
  | [c] => c.text
  | c :: c' :: cookies => c.text ++ ';' :: ' ' :: header (c' :: cookies)

/-- The cookie is the session cookie. -/
def isSession (c : Cookie) : Bool := c.name = "session".toList

/-- The value of the first session cookie, empty when there is none. -/
def sessionValue (cookies : List Cookie) : Text :=
  match cookies.find? isSession with
  | some c => c.value
  | none => []

/-- The text that `extractSession` searches for. -/
def sessionKey : Text := "session=".toList

/-- What follows `session=` in the first cookie in front of the session cookie that
    contains it. -/
def shadow (cookies : List Cookie) : Option Text :=
  (cookies.takeWhile fun c => !c.isSession).findSome? fun c => behind sessionKey c.text

theorem semicolon_not_mem_sessionKey : ';' ∉ sessionKey := by decide

theorem semicolon_not_mem_text (c : Cookie) : ';' ∉ c.text := by
  intro hmem
  rcases List.mem_append.mp hmem with hname | hvalue
  · exact c.name_ok.2 hname
  · cases hvalue with
    | tail _ hvalue => exact c.value_ok hvalue

/-- The session cookie is found by its name. -/
theorem behind_text_of_isSession {c : Cookie} (h : c.isSession = true) :
    behind sessionKey c.text = some c.value := by
  have htext : c.text = sessionKey ++ c.value := by
    rw [text, of_decide_eq_true h]
    rfl
  rw [htext]
  exact behind_append_self _ _

/-- The first cookie with the text stands in front of the session cookie or is it. -/
theorem findSome_behind (cookies : List Cookie) :
    (cookies.findSome? fun c => behind sessionKey c.text) =
      (shadow cookies).or ((cookies.find? isSession).map (·.value)) := by
  induction cookies with
  | nil => rfl
  | cons c cookies ih =>
    cases hsession : c.isSession with
    | true =>
      have hbehind := behind_text_of_isSession hsession
      simp [shadow, hsession, hbehind]
    | false =>
      cases hbehind : behind sessionKey c.text with
      | some rest => simp [shadow, hsession, hbehind]
      | none =>
        have htail : shadow (c :: cookies) = shadow cookies := by simp [shadow, hsession, hbehind]
        rw [List.findSome?_cons, hbehind, htail, List.find?_cons_of_neg (by simp [hsession])]
        exact ih

/-- The header is searched cookie by cookie. -/
theorem behind_header (cookies : List Cookie) :
    (behind sessionKey (header cookies)).map (·.takeWhile (· ≠ ';')) =
      cookies.findSome? fun c => behind sessionKey c.text := by
  have hkey : sessionKey ≠ [] := by decide
  -- what follows the key inside a cookie has no semicolon in it
  have hrest : ∀ (c : Cookie) (rest : Text), behind sessionKey c.text = some rest →
      ∀ x ∈ rest, decide (x ≠ ';') = true := by
    intro c rest hbehind x hx
    refine decide_eq_true fun hsemi => c.semicolon_not_mem_text ?_
    exact (behind_suffix hbehind).subset (hsemi ▸ hx)
  induction cookies with
  | nil => rfl
  | cons c cookies ih =>
    rw [List.findSome?_cons]
    cases cookies with
    | nil =>
      change (behind sessionKey c.text).map _ = _
      cases hbehind : behind sessionKey c.text with
      | none => rfl
      | some rest => exact congrArg some (List.takeWhile_eq_self_iff.mpr (hrest c rest hbehind))
    | cons c' cookies =>
      rw [header, behind_append_cons hkey semicolon_not_mem_sessionKey]
      cases hbehind : behind sessionKey c.text with
      | none =>
        dsimp only
        rw [behind_cons hkey (by decide)]
        exact ih
      | some rest =>
        refine congrArg some ?_
        dsimp only
        rw [List.takeWhile_append_of_pos (hrest c rest hbehind), List.takeWhile_cons_of_neg (by decide),
          List.append_nil]

end Cookie

namespace HttpRouter

open Cookie

theorem findText_cons (key : Text) (c : Char) (text : Text) :
    findText key (c :: text) =
      if key.isPrefixOf (c :: text) then some 0 else (findText key text).map (· + 1) := rfl

theorem findText_eq (key text : Text) :
    (findText key text).map (fun pos => text.drop (pos + key.length)) = behind key text := by
  induction text with
  | nil =>
    unfold findText behind
    split
    next hkey => rw [hkey]; rfl
    · rfl
  | cons c text ih =>
    rw [behind_cons_eq, ← ih, findText_cons]
    split
    · rw [Option.map_some, Nat.zero_add]
    · rw [Option.map_map]
      congr 1
      funext pos
      simp [Nat.add_right_comm]

theorem drop_of_findText {key text : Text} {pos : ℕ} (h : findText key text = some pos) :
    text.drop pos = key ++ text.drop (pos + key.length) ∧ pos + key.length ≤ text.length := by
  induction text generalizing pos with
  | nil =>
    unfold findText at h
    split at h
    next hkey =>
      cases h
      simp [hkey]
    · cases h
  | cons c text ih =>
    rw [findText_cons] at h
    split at h
    next hpre =>
      cases h
      have hprefix := List.isPrefixOf_iff_prefix.mp hpre
      refine ⟨?_, ?_⟩
      · rw [List.drop_zero, Nat.zero_add]
        exact (List.prefix_iff_eq_append.mp hprefix).symm
      · rw [Nat.zero_add]
        exact hprefix.length_le
    next =>
      obtain ⟨pos', hpos, rfl⟩ := Option.map_eq_some_iff.mp h
      obtain ⟨hdrop, hle⟩ := ih hpos
      refine ⟨?_, ?_⟩
      · rw [Nat.add_right_comm]
        exact hdrop
      · rw [Nat.add_right_comm]
        exact Nat.succ_le_succ hle

/-- The next semicolon. -/
theorem findText_semicolon (text : Text) :
    findText ";".toList text =
      if ';' ∈ text then some (text.takeWhile (· ≠ ';')).length else none := by
  induction text with
  | nil => rfl
  | cons c text ih =>
    by_cases hc : c = ';'
    · subst hc
      simp [findText]
    · have hpre : ¬ ";".toList.isPrefixOf (c :: text) = true := by
        simp [Ne.symm hc]
      rw [findText_cons, if_neg hpre, ih]
      simp only [List.mem_cons, Ne.symm hc, false_or]
      split
      · simp [hc]
      · rfl

/-- `extractSession` takes what follows the key, up to the next semicolon. -/
theorem extractSession_eq {req : Request} {cookies : Text} (h : req.cookie = some cookies) :
    extractSession req = ((behind sessionKey cookies).map (·.takeWhile (· ≠ ';'))).getD [] := by
  have hbehind := findText_eq sessionKey cookies
  have hname : "session=".toList = sessionKey := rfl
  unfold extractSession
  rw [h, hname]
  dsimp only
  cases hfind : findText sessionKey cookies with
  | none =>
    rw [hfind] at hbehind
    rw [← hbehind]
    rfl
  | some pos =>
    rw [hfind] at hbehind
    rw [← hbehind]
    obtain ⟨hdrop, hle⟩ := drop_of_findText hfind
    have hlen : (cookies.drop (pos + sessionKey.length)).length = cookies.length - (pos + sessionKey.length) :=
      List.length_drop
    have hkey : ∀ x ∈ sessionKey, decide (x ≠ ';') = true :=
      fun x hx => decide_eq_true fun hsemi => semicolon_not_mem_sessionKey (hsemi ▸ hx)
    dsimp only [Option.map_some, Option.getD_some]
    rw [hdrop, findText_semicolon]
    generalize cookies.drop (pos + sessionKey.length) = rest at hlen
    by_cases hsemi : ';' ∈ rest
    · rw [if_pos (List.mem_append_right _ hsemi), List.takeWhile_append_of_pos hkey,
        List.length_append]
      dsimp only
      rw [← Nat.add_assoc, Nat.add_sub_cancel_left]
      exact (List.prefix_iff_eq_take.mp (List.takeWhile_prefix _)).symm
    · have hnot : ';' ∉ sessionKey ++ rest := by
        rw [List.mem_append]
        exact fun hor => hor.elim semicolon_not_mem_sessionKey hsemi
      rw [if_neg hnot]
      dsimp only
      rw [← hlen, List.take_length, eq_comm, List.takeWhile_eq_self_iff]
      exact fun x hx => decide_eq_true fun hx' => hsemi (hx' ▸ hx)

/-- `extractSession` returns the value of the session cookie exactly when no cookie in
    front of it contains `session=`, or the first one that does has the same text behind
    it. -/
theorem extractSession_right_iff (req : Request) (cookies : List Cookie)
    (hreq : req.cookie = some (header cookies)) :
    extractSession req = sessionValue cookies ↔
      ∀ value ∈ shadow cookies, value = sessionValue cookies := by
  rw [extractSession_eq hreq, behind_header, findSome_behind]
  cases hshadow : shadow cookies with
  | some value => simp
  | none =>
    have hvalue : ((cookies.find? isSession).map (·.value)).getD [] = sessionValue cookies := by
      unfold sessionValue
      cases cookies.find? isSession <;> rfl
    simp [hvalue]

/-- The session cookie stands behind another one. -/
theorem extractSession_second :
    extractSession ⟨"/api/v1/".toList, .other, 11, true, some "a=b; session=1_sess".toList, []⟩ =
      "1_sess".toList := by
  have hiff := extractSession_right_iff
    ⟨"/api/v1/".toList, .other, 11, true, some "a=b; session=1_sess".toList, []⟩
    [⟨"a".toList, "b".toList, by decide, by decide⟩,
      ⟨"session".toList, "1_sess".toList, by decide, by decide⟩] rfl
  exact hiff.mpr (by decide)

/-- A cookie whose name ends in `session` hides the session cookie behind it. -/
theorem extractSession_hidden :
    ∃ (req : Request) (cookies : List Cookie), req.cookie = some (header cookies) ∧
      header cookies = "mysession=a; session=b".toList ∧ sessionValue cookies = "b".toList ∧
      extractSession req = "a".toList :=
  ⟨⟨"/api/v1/".toList, .other, 11, true, some "mysession=a; session=b".toList, []⟩,
    [⟨"mysession".toList, "a".toList, by decide, by decide⟩,
      ⟨"session".toList, "b".toList, by decide, by decide⟩], rfl, rfl, by decide, by decide⟩

end HttpRouter

end NfEngine
