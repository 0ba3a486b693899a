import Mnema.Uploads
import Mathlib.Data.Bool.AllAny
import Mathlib.Data.List.Infix

/-! What `redact` leaves of a value: bearer tokens and the values of sensitive keys are replaced. -/

namespace Mnema.Redaction

open PyText

/-! ### Strings -/

/-- The letter that a character counts as where case is ignored. -/
def fold (c : Char) : Char :=
  if c.isUpper then c.toLower
  else if c.toNat = 0x130 ∨ c.toNat = 0x131 then 'i'
  else if c.toNat = 0x17f then 's'
  else if c.toNat = 0x212a then 'k'
  else c

def bearer : List Char := ['b', 'e', 'a', 'r', 'e', 'r']

/-- `[A-Za-z0-9._~+/=-]`. -/
def isToken (c : Char) : Bool := (fold c).isAlphanum || "._~+/=-".toList.contains c

/-- `\s+` and one character of the token. -/
def spacesThenToken (seen : Bool) : List Char → Bool
  | [] => false
  | c :: cs => if isSpace c then spacesThenToken true cs else seen && isToken c

/-- The rest of the word, and what has to follow it. -/
def wordThenToken : List Char → List Char → Bool
  | [], cs => spacesThenToken false cs
  | _ :: _, [] => false
  | letter :: word, c :: cs => fold c == letter && wordThenToken word cs

section Word

variable (isWord : Char → Bool)

/-- `\b` before a letter. -/
def boundary (before : Option Char) : Bool := !before.any isWord

/-- `_BEARER` matches here. -/
def matchesHere (before : Option Char) (text : List Char) : Bool :=
  boundary isWord before && wordThenToken bearer text

/-- What follows a match. -/
def afterMatch (text : List Char) : List Char :=
  ((text.drop bearer.length).dropWhile isSpace).dropWhile isToken

def marker : List Char := "[REDACTED]".toList

def replacement : List Char := "Bearer [REDACTED]".toList

theorem length_afterMatch_lt {c : Char} {cs : List Char} :
    (afterMatch (c :: cs)).length < (c :: cs).length := by
  have hdrop : ((c :: cs).drop bearer.length).length < (c :: cs).length := by
    rw [List.length_drop]
    exact Nat.sub_lt (by simp) (by decide)
  have hspace := (List.dropWhile_suffix (l := (c :: cs).drop bearer.length) isSpace).length_le
  have htoken := (List.dropWhile_suffix
    (l := ((c :: cs).drop bearer.length).dropWhile isSpace) isToken).length_le
  exact (htoken.trans hspace).trans_lt hdrop

/-- `_BEARER.sub`, from a place in the text on. -/
def redactFrom (before : Option Char) : List Char → List Char
  | [] => []
  | c :: cs =>
    if matchesHere isWord before (c :: cs) then
      replacement ++ redactFrom
        (((c :: cs).take ((c :: cs).length - (afterMatch (c :: cs)).length)).getLast?)
        (afterMatch (c :: cs))
    else c :: redactFrom (some c) cs
termination_by text => text.length
decreasing_by
  · exact length_afterMatch_lt
  · simp

def redactText (text : List Char) : List Char := redactFrom isWord none text

/-- The word `Bearer`, white space and a character of a token stand in the text. -/
def HasBearer (text : List Char) : Prop :=
  ∃ front word spaces token rest, text = front ++ word ++ spaces ++ token :: rest ∧
    boundary isWord front.getLast? = true ∧ word.map fold = bearer ∧
    spaces ≠ [] ∧ (∀ c ∈ spaces, isSpace c = true) ∧ isToken token = true

/-- Nowhere from here on does a match begin. -/
def Clear (before : Option Char) : List Char → Prop
  | [] => True
  | c :: cs => matchesHere isWord before (c :: cs) = false ∧ Clear (some c) cs

variable {isWord} {before other : Option Char} {text word front : List Char}

theorem eq_of_toLower {c : Char} (hupper : c.isUpper = true) (h : c.toLower = 'b') : c = 'B' := by
  have hrange : 65 ≤ c.val ∧ c.val ≤ 90 := of_decide_eq_true hupper
  have hlower : c.toLower.val = c.val + 32 := congrArg Char.val (dif_pos hrange)
  rw [h] at hlower
  have hsum := congrArg UInt32.toNat hlower
  have hle := UInt32.le_iff_toNat_le.1 hrange.2
  change 98 = (c.val.toNat + 32) % 2 ^ 32 at hsum
  change c.val.toNat ≤ 90 at hle
  apply Char.ext
  apply UInt32.toNat.inj
  show c.val.toNat = 66
  omega

theorem eq_b_of_fold {c : Char} (h : fold c = 'b') : c = 'b' ∨ c = 'B' := by
  unfold fold at h
  split at h
  · rename_i hupper
    exact .inr (eq_of_toLower hupper h)
  · split at h
    · simp at h
    split at h
    · simp at h
    split at h
    · simp at h
    · exact .inl h

theorem isToken_of_fold {c : Char} (h : fold c = 'b') : isToken c = true := by
  rw [isToken, h]
  rfl

theorem not_space_of_fold {c : Char} (h : fold c = 'b') : isSpace c = false := by
  rcases eq_b_of_fold h with hc | hc
  · rw [hc]
    decide
  · rw [hc]
    decide

theorem fold_of_not_token {c : Char} (h : isToken c = false) : fold c ≠ 'b' := by
  intro hb
  rw [isToken_of_fold hb] at h
  cases h

theorem code_of_alphanum {c : Char} (h : c.isAlphanum = true) : 48 ≤ c.toNat ∧ c.toNat ≤ 122 := by
  change ((decide (65 ≤ c.val ∧ c.val ≤ 90) || (decide (97 ≤ c.val) && decide (c.val ≤ 122))) ||
    (decide (48 ≤ c.val) && decide (c.val ≤ 57))) = true at h
  simp only [Bool.or_eq_true, Bool.and_eq_true, decide_eq_true_eq, UInt32.le_iff_toNat_le] at h
  change ((65 ≤ c.toNat ∧ c.toNat ≤ 90) ∨ 97 ≤ c.toNat ∧ c.toNat ≤ 122) ∨ 48 ≤ c.toNat ∧ c.toNat ≤ 57 at h
  omega

theorem code_of_token {c : Char} (h : isToken c = true) :
    (33 ≤ c.toNat ∧ c.toNat ≤ 126) ∨ c.toNat = 0x130 ∨ c.toNat = 0x131 ∨ c.toNat = 0x17f ∨
      c.toNat = 0x212a := by
  rw [isToken, Bool.or_eq_true] at h
  rcases h with halpha | hmark
  · unfold fold at halpha
    split at halpha
    · rename_i hupper
      have halphanum : ((c.isUpper || c.isLower) || c.isDigit) = true := by rw [hupper, Bool.true_or, Bool.true_or]
      have hcode := code_of_alphanum halphanum
      omega
    · split at halpha
      · omega
      split at halpha
      · omega
      split at halpha
      · omega
      · have hcode := code_of_alphanum halpha
        omega
  · have hmem : c ∈ "._~+/=-".toList := by simpa using hmark
    have hall : ∀ d ∈ "._~+/=-".toList, 33 ≤ d.toNat ∧ d.toNat ≤ 126 := List.all_iff_forall_prop.mp (by decide)
    exact .inl (hall c hmem)

/-- No character of a token is white space. -/
theorem not_space_of_token {c : Char} (h : isToken c = true) : isSpace c = false := by
  have hcode := code_of_token h
  simp only [isSpace, Bool.or_eq_false_iff, Bool.and_eq_false_iff, decide_eq_false_iff_not,
    beq_eq_false_iff_ne]
  omega

theorem replacement_cons : replacement = 'B' :: "earer [REDACTED]".toList := rfl

theorem spacesThenToken_of_fold {seen : Bool} {c : Char} {cs : List Char} (h : fold c = 'b') :
    spacesThenToken seen (c :: cs) = seen := by
  rw [spacesThenToken, not_space_of_fold h, isToken_of_fold h]
  simp

theorem matchesHere_of_ne {c : Char} {cs : List Char} (h : fold c ≠ 'b') :
    matchesHere isWord before (c :: cs) = false := by
  simp [matchesHere, wordThenToken, bearer, h]

theorem fold_of_matchesHere {c : Char} {cs : List Char}
    (h : matchesHere isWord before (c :: cs) = true) : fold c = 'b' := by
  by_contra hne
  rw [matchesHere_of_ne hne] at h
  cases h

theorem redactFrom_of_clear (h : Clear isWord before text) : redactFrom isWord before text = text := by
  induction text generalizing before with
  | nil => simp [redactFrom]
  | cons c cs ih =>
    rw [redactFrom, if_neg (by simp [h.1]), ih h.2]

/-- What a match needs behind the word is there before the text is redacted, if it is after. -/
theorem spacesThenToken_of_redacted {seen : Bool}
    (h : spacesThenToken seen (redactFrom isWord before text) = true) :
    spacesThenToken seen text = true := by
  induction text generalizing before seen with
  | nil => simpa [redactFrom] using h
  | cons c cs ih =>
    rw [redactFrom] at h
    by_cases hm : matchesHere isWord before (c :: cs) = true
    · rw [if_pos hm, replacement_cons, List.cons_append, spacesThenToken_of_fold (by decide)] at h
      rw [spacesThenToken_of_fold (fold_of_matchesHere hm)]
      exact h
    · rw [if_neg hm] at h
      rw [spacesThenToken] at h ⊢
      by_cases hspace : isSpace c = true
      · rw [if_pos hspace] at h ⊢
        exact ih h
      · rw [if_neg hspace] at h ⊢
        exact h

theorem wordThenToken_of_redacted (hword : 'b' ∉ word)
    (h : wordThenToken word (redactFrom isWord before text) = true) :
    wordThenToken word text = true := by
  induction word generalizing before text with
  | nil => exact spacesThenToken_of_redacted h
  | cons letter word ih =>
    cases text with
    | nil => simpa [redactFrom] using h
    | cons c cs =>
      rw [redactFrom] at h
      rw [List.mem_cons, not_or] at hword
      by_cases hm : matchesHere isWord before (c :: cs) = true
      · -- what replaces a match begins with a letter that the rest of the word has nowhere
        rw [if_pos hm, replacement_cons, List.cons_append, wordThenToken, Bool.and_eq_true,
          beq_iff_eq] at h
        have hb : fold 'B' = 'b' := by decide
        exact absurd (hb.symm.trans h.1) hword.1
      · rw [if_neg hm] at h
        rw [wordThenToken, Bool.and_eq_true] at h ⊢
        exact ⟨h.1, ih hword.2 h.2⟩

theorem matchesHere_of_redacted {c : Char} {cs : List Char} {next : Option Char}
    (h : matchesHere isWord before (c :: redactFrom isWord next cs) = true) :
    matchesHere isWord before (c :: cs) = true := by
  rw [matchesHere, Bool.and_eq_true, bearer, wordThenToken, Bool.and_eq_true] at h ⊢
  exact ⟨h.1, h.2.1, wordThenToken_of_redacted (by decide) h.2.2⟩

/-! ### What a redacted text is clear of -/

theorem clear_append {last : Char} {rest : List Char} (hfront : ∀ c ∈ front, fold c ≠ 'b')
    (hlast : fold last ≠ 'b') (hrest : Clear isWord (some last) rest) :
    Clear isWord before (front ++ last :: rest) := by
  induction front generalizing before with
  | nil => exact ⟨matchesHere_of_ne hlast, hrest⟩
  | cons c cs ih =>
    exact ⟨matchesHere_of_ne (hfront c List.mem_cons_self),
      ih fun d hd => hfront d (List.mem_cons_of_mem c hd)⟩

theorem clear_change (hhead : ∀ c ∈ text.head?, fold c ≠ 'b') (h : Clear isWord before text) :
    Clear isWord other text := by
  cases text with
  | nil => exact h
  | cons c cs => exact ⟨matchesHere_of_ne (hhead c rfl), h.2⟩

theorem clear_replacement {rest : List Char} (h : Clear isWord (some ']') rest) :
    Clear isWord before (replacement ++ rest) := by
  have hsplit : replacement ++ rest = 'B' :: ("earer [REDACTED".toList ++ ']' :: rest) := rfl
  have hno : wordThenToken bearer (replacement ++ rest) = false := rfl
  rw [hsplit] at hno ⊢
  refine ⟨by rw [matchesHere, hno, Bool.and_false], clear_append ?_ (by decide) h⟩
  exact List.all_iff_forall_prop.mp (by decide)

/-- Behind a match stands no character of a token. -/
theorem head_redactFrom_afterMatch :
    ∀ c ∈ (redactFrom isWord before (afterMatch text)).head?, fold c ≠ 'b' := by
  intro c hc
  have hhead : ∀ d ∈ (afterMatch text).head?, isToken d = false := by
    intro d hd
    have hnot := List.head?_dropWhile_not isToken ((text.drop bearer.length).dropWhile isSpace)
    rw [afterMatch, Option.mem_def] at hd
    rw [hd] at hnot
    simpa using hnot
  cases hrest : afterMatch text with
  | nil =>
    rw [hrest] at hc
    simp [redactFrom] at hc
  | cons d ds =>
    have hd := fold_of_not_token (hhead d (by rw [hrest]; rfl))
    rw [hrest, redactFrom, if_neg (by simp [matchesHere_of_ne hd])] at hc
    obtain rfl := Option.some.inj hc
    exact hd

theorem clear_redactFrom : Clear isWord before (redactFrom isWord before text) := by
  induction before, text using redactFrom.induct isWord with
  | case1 before =>
    rw [redactFrom]
    trivial
  | case2 before c cs hm ih =>
    rw [redactFrom, if_pos hm]
    exact clear_replacement (clear_change head_redactFrom_afterMatch ih)
  | case3 before c cs hm ih =>
    rw [redactFrom, if_neg hm]
    refine ⟨?_, ih⟩
    rw [Bool.eq_false_iff]
    intro hagain
    exact hm (matchesHere_of_redacted hagain)

theorem redactText_redactText : redactText isWord (redactText isWord text) = redactText isWord text :=
  redactFrom_of_clear clear_redactFrom

theorem matchesHere_of_bearer {spaces rest : List Char} {token : Char}
    (hboundary : boundary isWord before = true) (hword : word.map fold = bearer)
    (hspaces : spaces ≠ []) (hspace : ∀ c ∈ spaces, isSpace c = true) (htoken : isToken token = true) :
    matchesHere isWord before (word ++ spaces ++ token :: rest) = true := by
  have hbehind : ∀ seen, (seen = true ∨ spaces ≠ []) → 
      spacesThenToken seen (spaces ++ token :: rest) = true := by
    clear hspaces
    induction spaces with
    | nil =>
      intro seen hseen
      rw [List.nil_append, spacesThenToken, not_space_of_token htoken]
      simpa [htoken] using hseen
    | cons c cs ih =>
      intro seen _
      rw [List.cons_append, spacesThenToken, if_pos (hspace c List.mem_cons_self)]
      exact ih (fun d hd => hspace d (List.mem_cons_of_mem c hd)) true (.inl rfl)
  have hall : ∀ letters, word.map fold = letters →
      wordThenToken letters (word ++ (spaces ++ token :: rest)) = true := by
    clear hword
    induction word with
    | nil =>
      intro letters hletters
      rw [← hletters]
      exact hbehind false (.inr hspaces)
    | cons c cs ih =>
      intro letters hletters
      rw [← hletters, List.map_cons, List.cons_append, wordThenToken, ih _ rfl]
      simp
  rw [matchesHere, hboundary, List.append_assoc, hall bearer hword]
  rfl

theorem clear_of_append {back : List Char} (h : Clear isWord before (front ++ back)) :
    Clear isWord (front.getLast?.or before) back := by
  induction front generalizing before with
  | nil => simpa using h
  | cons c cs ih =>
    have hrest := ih h.2
    cases cs with
    | nil => simpa using hrest
    | cons d ds =>
      rw [List.getLast?_cons_cons]
      simpa [List.getLast?_cons] using hrest

theorem not_hasBearer_of_clear (h : Clear isWord none text) : ¬HasBearer isWord text := by
  rintro ⟨front, word, spaces, token, rest, htext, hboundary, hword, hspaces, hspace, htoken⟩
  have hmatch : matchesHere isWord front.getLast? (word ++ spaces ++ token :: rest) = true :=
    matchesHere_of_bearer hboundary hword hspaces hspace htoken
  rw [htext, List.append_assoc, List.append_assoc] at h
  have htail := clear_of_append h
  rw [Option.or_none, ← List.append_assoc] at htail
  cases hcs : word ++ spaces ++ token :: rest with
  | nil => simp at hcs
  | cons c cs =>
    rw [hcs] at hmatch htail
    rw [htail.1] at hmatch
    cases hmatch

end Word

/-! ### Values -/

/-- A key of a mapping, with what `str` makes of it. -/
inductive Key where
  | str (text : List Char)
  | other (printed : List Char)
deriving DecidableEq

def Key.text : Key → List Char
  | .str text => text
  | .other printed => printed

inductive Value (ν : Type) where
  | str (text : List Char)
  | other (value : ν)
  | mapping (items : List (Key × Value ν))
  | list (items : List (Value ν))
  | tuple (items : List (Value ν))

def sensitiveWords : List (List Char) :=
  ["secret".toList, "password".toList, "token".toList, "authorization".toList, "credential".toList,
    "apikey".toList, "api_key".toList, "api-key".toList,
    "accesskey".toList, "access_key".toList, "access-key".toList]

/-- `_SENSITIVE.search`. -/
def sensitive (text : List Char) : Bool :=
  sensitiveWords.any fun word => decide (word <:+: text.map fold)

/-- What a dictionary display does with one more item: a key keeps its place and takes the later value. -/
def put {α β : Type} [DecidableEq α] (item : α × β) : List (α × β) → List (α × β)
  | [] => [item]
  | other :: rest => if other.1 = item.1 then item :: rest else other :: put item rest

def dict {α β : Type} [DecidableEq α] (items : List (α × β)) : List (α × β) :=
  items.foldl (fun items item => put item items) []

variable {ν : Type}

section Values

variable (isWord : Char → Bool)

mutual

def redact : Value ν → Value ν
  | .str text => .str (redactText isWord text)
  | .other value => .other value
  | .mapping items => .mapping (dict (redactItems items))
  | .list items => .list (redactAll items)
  | .tuple items => .tuple (redactAll items)

def redactItems : List (Key × Value ν) → List (Key × Value ν)
  | [] => []
  | (key, item) :: rest =>
    (.str key.text, if sensitive key.text then .str marker else redact item) :: redactItems rest

def redactAll : List (Value ν) → List (Value ν)
  | [] => []
  | item :: rest => redact item :: redactAll rest

end

end Values

mutual

/-- The strings of a value, at any depth, less its keys. -/
def strings : Value ν → List (List Char)
  | .str text => [text]
  | .other _ => []
  | .mapping items => stringsOfItems items
  | .list items => stringsOfAll items
  | .tuple items => stringsOfAll items

def stringsOfItems : List (Key × Value ν) → List (List Char)
  | [] => []
  | (_, item) :: rest => strings item ++ stringsOfItems rest

def stringsOfAll : List (Value ν) → List (List Char)
  | [] => []
  | item :: rest => strings item ++ stringsOfAll rest

end

mutual

def keys : Value ν → List Key
  | .str _ => []
  | .other _ => []
  | .mapping items => keysOfItems items
  | .list items => keysOfAll items
  | .tuple items => keysOfAll items

def keysOfItems : List (Key × Value ν) → List Key
  | [] => []
  | (key, item) :: rest => key :: keys item ++ keysOfItems rest

def keysOfAll : List (Value ν) → List Key
  | [] => []
  | item :: rest => keys item ++ keysOfAll rest

end

mutual

/-- Two values that differ only in what they hold under sensitive keys. -/
inductive Similar : Value ν → Value ν → Prop
  | str (text : List Char) : Similar (.str text) (.str text)
  | other (value : ν) : Similar (.other value) (.other value)
  | mapping {items others : List (Key × Value ν)} (h : SimilarItems items others) :
    Similar (.mapping items) (.mapping others)
  | list {items others : List (Value ν)} (h : SimilarAll items others) :
    Similar (.list items) (.list others)
  | tuple {items others : List (Value ν)} (h : SimilarAll items others) :
    Similar (.tuple items) (.tuple others)

inductive SimilarItems : List (Key × Value ν) → List (Key × Value ν) → Prop
  | nil : SimilarItems [] []
  | hidden {key : Key} {items others : List (Key × Value ν)} (item other : Value ν)
    (hkey : sensitive key.text = true) (h : SimilarItems items others) :
    SimilarItems ((key, item) :: items) ((key, other) :: others)
  | cons {key : Key} {item other : Value ν} {items others : List (Key × Value ν)}
    (hitem : Similar item other) (h : SimilarItems items others) :
    SimilarItems ((key, item) :: items) ((key, other) :: others)

inductive SimilarAll : List (Value ν) → List (Value ν) → Prop
  | nil : SimilarAll [] []
  | cons {item other : Value ν} {items others : List (Value ν)} (hitem : Similar item other)
    (h : SimilarAll items others) : SimilarAll (item :: items) (other :: others)

end

variable {isWord : Char → Bool}

mutual

theorem redact_of_similar {a b : Value ν} (h : Similar a b) : redact isWord a = redact isWord b := by
  cases h with
  | str text => rfl
  | other value => rfl
  | mapping h => rw [redact, redact, redactItems_of_similar h]
  | list h => rw [redact, redact, redactAll_of_similar h]
  | tuple h => rw [redact, redact, redactAll_of_similar h]

theorem redactItems_of_similar {items others : List (Key × Value ν)} (h : SimilarItems items others) :
    redactItems isWord items = redactItems isWord others := by
  cases h with
  | nil => rfl
  | hidden item other hkey h =>
    rw [redactItems, redactItems, redactItems_of_similar h, if_pos hkey, if_pos hkey]
  | cons hitem h => rw [redactItems, redactItems, redactItems_of_similar h, redact_of_similar hitem]

theorem redactAll_of_similar {items others : List (Value ν)} (h : SimilarAll items others) :
    redactAll isWord items = redactAll isWord others := by
  cases h with
  | nil => rfl
  | cons hitem h => rw [redactAll, redactAll, redactAll_of_similar h, redact_of_similar hitem]

end

/-! ### Dictionaries -/

section Dict

variable {α β : Type} [DecidableEq α] {item : α × β} {items others : List (α × β)}

theorem mem_of_mem_put {entry : α × β} (h : entry ∈ put item items) : entry = item ∨ entry ∈ items := by
  induction items with
  | nil => simpa [put] using h
  | cons other rest ih =>
    rw [put] at h
    by_cases heq : other.1 = item.1
    · rw [if_pos heq, List.mem_cons] at h
      exact h.imp_right (List.mem_cons_of_mem other)
    · rw [if_neg heq, List.mem_cons] at h
      rcases h with hhead | hrest
      · exact .inr (by simp [hhead])
      · exact (ih hrest).imp_right (List.mem_cons_of_mem other)

theorem put_of_not_mem (h : item.1 ∉ items.map Prod.fst) : put item items = items ++ [item] := by
  induction items with
  | nil => rfl
  | cons other rest ih =>
    rw [List.map_cons, List.mem_cons, not_or] at h
    rw [put, if_neg (Ne.symm h.1), ih h.2]
    rfl

theorem mem_of_mem_dict {entry : α × β} (h : entry ∈ dict items) : entry ∈ items := by
  have hfold : ∀ start : List (α × β), entry ∈ items.foldl (fun items item => put item items) start →
      entry ∈ start ∨ entry ∈ items := by
    clear h
    induction items with
    | nil => exact fun start h => .inl h
    | cons item rest ih =>
      intro start h
      rcases ih (put item start) h with hput | hrest
      · rcases mem_of_mem_put hput with heq | hstart
        · exact .inr (by simp [heq])
        · exact .inl hstart
      · exact .inr (List.mem_cons_of_mem item hrest)
  simpa using hfold [] h

theorem keys_put (h : (items.map Prod.fst).Nodup) : ((put item items).map Prod.fst).Nodup := by
  by_cases hmem : item.1 ∈ items.map Prod.fst
  · have hkeys : (put item items).map Prod.fst = items.map Prod.fst := by
      clear h
      induction items with
      | nil => simp at hmem
      | cons other rest ih =>
        rw [put]
        by_cases heq : other.1 = item.1
        · rw [if_pos heq, List.map_cons, List.map_cons, heq]
        · rw [if_neg heq, List.map_cons, List.map_cons, ih]
          rw [List.map_cons, List.mem_cons] at hmem
          exact hmem.resolve_left (Ne.symm heq)
    rw [hkeys]
    exact h
  · rw [put_of_not_mem hmem, List.map_append]
    exact List.nodup_append_comm.1 (by simpa using ⟨by simpa using hmem, h⟩)

theorem nodup_dict : ((dict items).map Prod.fst).Nodup := by
  have hfold : ∀ start : List (α × β), (start.map Prod.fst).Nodup →
      ((items.foldl (fun items item => put item items) start).map Prod.fst).Nodup := by
    induction items with
    | nil => exact fun start h => h
    | cons item rest ih => exact fun start h => ih (put item start) (keys_put h)
  exact hfold [] List.nodup_nil

theorem dict_of_nodup (h : (items.map Prod.fst).Nodup) : dict items = items := by
  have hfold : ∀ start : List (α × β), ((start ++ items).map Prod.fst).Nodup →
      items.foldl (fun items item => put item items) start = start ++ items := by
    clear h
    induction items with
    | nil => simp
    | cons item rest ih =>
      intro start h
      have hnew : item.1 ∉ start.map Prod.fst := by
        intro hmem
        rw [List.map_append, List.nodup_append] at h
        exact h.2.2 _ hmem _ (by simp) rfl
      rw [List.foldl_cons, put_of_not_mem hnew, ih _ (by simpa using h)]
      simp
  exact hfold [] h

end Dict

/-! ### Redacting twice -/

/-- What becomes of one item of a mapping. -/
def redactItem (isWord : Char → Bool) (item : Key × Value ν) : Key × Value ν :=
  (.str item.1.text, if sensitive item.1.text then .str marker else redact isWord item.2)

theorem redactItems_eq_map (items : List (Key × Value ν)) :
    redactItems isWord items = items.map (redactItem isWord) := by
  induction items with
  | nil => rfl
  | cons item rest ih => rw [redactItems, ih]; rfl

theorem redactItem_redactItem {item : Key × Value ν}
    (h : redact isWord (redact isWord item.2) = redact isWord item.2) :
    redactItem isWord (redactItem isWord item) = redactItem isWord item := by
  have htext : (redactItem isWord item).1.text = item.1.text := rfl
  by_cases hkey : sensitive item.1.text = true
  · rw [redactItem, htext, if_pos hkey, redactItem, if_pos hkey]
  · rw [redactItem, htext, if_neg hkey, redactItem, if_neg hkey, h]

/-- A dictionary whose items are redacted already is redacted. -/
theorem redact_mapping_of_fixed {items : List (Key × Value ν)}
    (h : ∀ item ∈ items, redactItem isWord item = item) :
    redact isWord (.mapping (dict items)) = .mapping (dict items) := by
  have hfixed : ∀ item ∈ dict items, redactItem isWord item = id item :=
    fun item hitem => h item (mem_of_mem_dict hitem)
  have hmap : (dict items).map (redactItem isWord) = dict items := by
    rw [List.map_congr_left hfixed, List.map_id]
  rw [redact, redactItems_eq_map, hmap, dict_of_nodup nodup_dict]

mutual

theorem redact_redact : (value : Value ν) → redact isWord (redact isWord value) = redact isWord value
  | .str text => by
    rw [redact, redact, redactText_redactText]
  | .other value => rfl
  | .mapping items => by
    rw [redact]
    exact redact_mapping_of_fixed (redactItem_of_mem items)
  | .list items => by
    rw [redact, redact, redactAll_redactAll items]
  | .tuple items => by
    rw [redact, redact, redactAll_redactAll items]

theorem redactItem_of_mem : (items : List (Key × Value ν)) →
    ∀ item ∈ redactItems isWord items, redactItem isWord item = item
  | [] => fun _ hitem => nomatch hitem
  | (key, value) :: rest => by
    intro item hitem
    rw [redactItems, List.mem_cons] at hitem
    rcases hitem with hhead | hrest
    · have hfixed : redactItem isWord (redactItem isWord (key, value)) = redactItem isWord (key, value) :=
        redactItem_redactItem (redact_redact value)
      rw [hhead]
      exact hfixed
    · exact redactItem_of_mem rest item hrest

theorem redactAll_redactAll : (items : List (Value ν)) →
    redactAll isWord (redactAll isWord items) = redactAll isWord items
  | [] => rfl
  | item :: rest => by
    rw [redactAll, redactAll, redact_redact item, redactAll_redactAll rest]

end

/-! ### No string of the result holds a bearer token -/

theorem mem_stringsOfItems {items : List (Key × Value ν)} {text : List Char} :
    text ∈ stringsOfItems items ↔ ∃ item ∈ items, text ∈ strings item.2 := by
  induction items with
  | nil => simp [stringsOfItems]
  | cons item rest ih => simp [stringsOfItems, ih]

theorem not_hasBearer_marker : ¬HasBearer isWord marker := by
  have hclear : Clear isWord none ("[REDACTED".toList ++ ']' :: []) :=
    clear_append (List.all_iff_forall_prop.mp (by decide)) (by decide) trivial
  exact not_hasBearer_of_clear hclear

mutual

theorem not_hasBearer_redact : (value : Value ν) →
    ∀ text ∈ strings (redact isWord value), ¬HasBearer isWord text
  | .str text => by
    intro redacted h
    rw [redact, strings, List.mem_singleton] at h
    rw [h]
    exact not_hasBearer_of_clear clear_redactFrom
  | .other value => fun _ h => nomatch h
  | .mapping items => by
    intro text h
    rw [redact, strings, mem_stringsOfItems] at h
    obtain ⟨item, hitem, htext⟩ := h
    exact not_hasBearer_redactItems items text
      (mem_stringsOfItems.2 ⟨item, mem_of_mem_dict hitem, htext⟩)
  | .list items => not_hasBearer_redactAll items
  | .tuple items => not_hasBearer_redactAll items

theorem not_hasBearer_redactItems : (items : List (Key × Value ν)) →
    ∀ text ∈ stringsOfItems (redactItems isWord items), ¬HasBearer isWord text
  | [] => fun _ h => nomatch h
  | (key, item) :: rest => by
    intro text h
    rw [redactItems, stringsOfItems, List.mem_append] at h
    rcases h with hhead | hrest
    · by_cases hkey : sensitive key.text = true
      · rw [if_pos hkey, strings, List.mem_singleton] at hhead
        rw [hhead]
        exact not_hasBearer_marker
      · rw [if_neg hkey] at hhead
        exact not_hasBearer_redact item text hhead
    · exact not_hasBearer_redactItems rest text hrest

theorem not_hasBearer_redactAll : (items : List (Value ν)) →
    ∀ text ∈ stringsOfAll (redactAll isWord items), ¬HasBearer isWord text
  | [] => fun _ h => nomatch h
  | item :: rest => by
    intro text h
    rw [redactAll, stringsOfAll, List.mem_append] at h
    rcases h with hhead | hrest
    · exact not_hasBearer_redact item text hhead
    · exact not_hasBearer_redactAll rest text hrest

end

end Redaction

open Redaction

/-- What a value holds under sensitive keys decides nothing of what is left of it, a second pass
finds nothing more, and no string but a key still has a bearer token. -/
theorem redact_hides {ν : Type} (isWord : Char → Bool) (a : Value ν) :
    (∀ b, Similar a b → redact isWord a = redact isWord b) ∧
      redact isWord (redact isWord a) = redact isWord a ∧
      ∀ text ∈ strings (redact isWord a), ¬HasBearer isWord text :=
  ⟨fun _ h => redact_of_similar h, redact_redact a, not_hasBearer_redact a⟩

def asciiWord (c : Char) : Bool := c.isAlphanum || c == '_'

def passwordIs (number : ℕ) : Value ℕ := .mapping [(.str "password".toList, .other number)]

theorem redact_hides_password : redact asciiWord (passwordIs 1) = redact asciiWord (passwordIs 2) := by
  have hkey : sensitive (Key.str "password".toList).text = true := by decide +kernel
  have hsimilar : Similar (passwordIs 1) (passwordIs 2) := .mapping (.hidden _ _ hkey .nil)
  exact (redact_hides asciiWord (passwordIs 1)).1 (passwordIs 2) hsimilar

/-- A key is put into the result as it is. -/
theorem redacted_key_has_bearer :
    ¬∀ (isWord : Char → Bool) (a : Value ℕ),
      (∀ b, Similar a b → redact isWord a = redact isWord b) ∧
        redact isWord (redact isWord a) = redact isWord a ∧
        ∀ text ∈ strings (redact isWord a) ++ (keys (redact isWord a)).map Key.text,
          ¬HasBearer isWord text := by
  intro h
  have hkeys : "Bearer abc".toList ∈
      (keys (redact asciiWord (.mapping [(.str "Bearer abc".toList, .other 1)]))).map Key.text := by
    rw [redact, redactItems, redactItems, dict, List.foldl_cons, List.foldl_nil, put, keys, keysOfItems]
    exact List.mem_cons_self
  have hclean := (h asciiWord (.mapping [(.str "Bearer abc".toList, .other 1)])).2.2 "Bearer abc".toList
    (List.mem_append_right _ hkeys)
  apply hclean
  exact ⟨[], "Bearer".toList, [' '], 'a', "bc".toList, rfl, rfl, by decide, by decide, List.all_iff_forall_prop.mp (by decide), by decide⟩

end Mnema
