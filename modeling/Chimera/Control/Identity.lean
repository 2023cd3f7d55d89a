import Chimera.Control.Command
import Chimera.Lib.Utf8

/-! What a reconcile is known by. Its identity is its texts one behind the other, so it is
told from every other command exactly when none of them is absent, holds a separator, or
can be read as another's. -/

namespace Chimera.Control
open Chimera.Model Chimera.Lib.Utf8

/-- The two requests describe the same work. -/
def SameWork (a b : ReconcileRequest) : Prop :=
  a.core = b.core ∧ a.expectedApplied = b.expectedApplied ∧
    a.options.localIpc = b.options.localIpc ∧ a.config = b.config

/-- Only the same work has the identity of the request. -/
def Identified (request : ReconcileRequest) : Prop :=
  ∀ other : CoreCommand, other.identityBytes = (CoreCommand.reconcile request).identityBytes →
    ∃ same, other = .reconcile same ∧ SameWork request same

/-! ## The texts of an identity -/

abbrev nul : Char := '\x00'

def featureText (features : List String) : Text := features.flatMap fun f => f.toList ++ [nul]

def expectedText : Option RevisionId → Text
  | some r => r.display.toList
  | none => []

def reconcileWord : Text := "reconcile".toList

def controllerWord : Text := "controller:".toList

def digestWord : Text := "digest:".toList

def controllerMark (settings : Option LocalIpcSettings) : Text :=
  nul :: (controllerWord ++ ((debugLocalIpc settings).toList ++ [nul]))

def digestMark : Text := nul :: digestWord

/-- What stands behind the version. -/
def settingsText (features : List String) (expected : Option RevisionId)
    (settings : Option LocalIpcSettings) : Text :=
  featureText features ++ (expectedText expected ++ controllerMark settings)

/-- What stands before the config. -/
def frontText (request : ReconcileRequest) : Text :=
  reconcileWord ++ nul :: (request.core.kind.display.toList ++
    nul :: (request.core.binaryPath.toList ++ nul :: ((request.core.version.getD "").toList ++
      nul :: settingsText request.core.features request.expectedApplied request.options.localIpc)))

section Texts

variable {request other : ReconcileRequest} {x y : List UInt8} {a b s t : Text} {sep : Char}

theorem toList_loop (bs : ByteArray) (i : Nat) (r : List UInt8) :
    ByteArray.toList.loop bs i r = r.reverse ++ bs.data.toList.drop i := by
  fun_induction ByteArray.toList.loop bs i r with
  | case1 i r hlt ih =>
    have hdrop : bs.data.toList.drop i = bs.get! i :: bs.data.toList.drop (i + 1) := by
      rw [List.drop_eq_getElem_cons (by simpa using hlt)]
      have hget : bs.get! i = bs.data[i]! := rfl
      rw [hget, getElem!_pos bs.data i hlt]
      simp
    rw [ih, hdrop]
    simp
  | case2 i r hle =>
    have hend : bs.data.toList.drop i = [] := by
      have hsize : bs.size = bs.data.toList.length := by simp
      exact List.drop_eq_nil_of_le (by omega)
    simp [hend]

theorem utf8_eq (s : String) : utf8 s = encode s.toList := by
  have hbytes : s.toUTF8 = (encode s.toList).toByteArray := by
    rw [String.toUTF8_eq_toByteArray, ← String.utf8Encode_toList]
    rfl
  rw [utf8, hbytes, ByteArray.toList, toList_loop]
  simp

@[simp] theorem featureText_nil : featureText [] = [] := rfl

@[simp] theorem featureText_cons (f : String) (fs : List String) :
    featureText (f :: fs) = f.toList ++ nul :: featureText fs := by
  simp [featureText]

theorem toList_features (features : List String) (text : String) :
    (features.foldl (fun text f => text ++ f ++ "\x00") text).toList =
      text.toList ++ featureText features := by
  induction features generalizing text with
  | nil => simp
  | cons f fs ih =>
    have hnul : "\x00".toList = [nul] := by decide
    rw [List.foldl_cons, ih, String.toList_append, String.toList_append, featureText_cons, hnul]
    simp only [List.append_assoc, List.singleton_append]

theorem frontText_config (config : ConfigInput) :
    frontText { request with config } = frontText request := rfl

theorem bytes_of_texts (start kind sep path version features expected mark debug : String)
    (bytes : List UInt8) (digest declared : String) :
    utf8 (start ++ kind ++ sep ++ path ++ sep ++ version ++ sep ++ features ++ expected ++ mark ++
      debug ++ sep) ++ bytes ++ utf8 digest ++ utf8 declared =
    encode (start.toList ++ (kind.toList ++ (sep.toList ++ (path.toList ++ (sep.toList ++
      (version.toList ++ (sep.toList ++ (features.toList ++ (expected.toList ++ (mark.toList ++
        (debug.toList ++ sep.toList))))))))))) ++ bytes ++
      encode (digest.toList ++ declared.toList) := by
  simp only [utf8_eq, String.toList_append, encode_append, List.append_assoc]

theorem identityBytes_eq (request : ReconcileRequest) :
    (CoreCommand.reconcile request).identityBytes = encode (frontText request) ++
      request.config.bytes ++
        encode (digestMark ++ (request.config.expectedDigest.getD "").toList) := by
  have hstart : "reconcile\x00".toList = reconcileWord ++ [nul] := by decide
  have hnul : "\x00".toList = [nul] := by decide
  have hmark : "\x00controller:".toList = nul :: controllerWord := by decide
  have hdigest : "\x00digest:".toList = digestMark := by decide
  have hempty : "".toList = [] := rfl
  have hexpected : (match request.expectedApplied with
      | some r => r.display
      | none => "").toList = expectedText request.expectedApplied := by
    cases request.expectedApplied <;> rfl
  have hbytes (expected : String) := bytes_of_texts "reconcile\x00" request.core.kind.display
    "\x00" request.core.binaryPath (request.core.version.getD "")
    (request.core.features.foldl (fun text f => text ++ f ++ "\x00") "") expected
    "\x00controller:" (debugLocalIpc request.options.localIpc) request.config.bytes
    "\x00digest:" (request.config.expectedDigest.getD "")
  simp only [toList_features, hstart, hnul, hmark, hdigest, hempty] at hbytes
  have hidentity : (CoreCommand.reconcile request).identityBytes =
      utf8 ("reconcile\x00" ++ request.core.kind.display ++ "\x00" ++ request.core.binaryPath ++
        "\x00" ++ request.core.version.getD "" ++ "\x00" ++
        request.core.features.foldl (fun text f => text ++ f ++ "\x00") "" ++
        (match request.expectedApplied with
          | some r => r.display
          | none => "") ++
        "\x00controller:" ++ debugLocalIpc request.options.localIpc ++ "\x00") ++
      request.config.bytes ++ utf8 "\x00digest:" ++ utf8 (request.config.expectedDigest.getD "") :=
    rfl
  refine (hidentity.trans (hbytes _)).trans ?_
  simp only [hexpected, frontText, settingsText, controllerMark, List.append_assoc,
    List.cons_append, List.nil_append]

/-- Fields up to a separator that neither has. -/
theorem encode_field_inj (ha : sep ∉ a) (hb : sep ∉ b)
    (h : encode (a ++ sep :: s) ++ x = encode (b ++ sep :: t) ++ y) :
    a = b ∧ encode s ++ x = encode t ++ y := by
  rcases encode_field ha h with hsame | ⟨rest, rfl, -⟩
  · exact hsame
  · simp at hb

theorem kind_display_inj {a b : CoreKind} (h : a.display = b.display) : a = b := by
  cases a <;> cases b <;> first | rfl | exact absurd h (by decide)

theorem nul_kind (kind : CoreKind) : nul ∉ kind.display.toList := by
  cases kind <;> decide

theorem nul_debug (settings : Option LocalIpcSettings) : nul ∉ (debugLocalIpc settings).toList := by
  rcases settings with - | ⟨policy, keep⟩
  · decide
  · cases policy <;> cases keep <;> decide

theorem debug_inj {a b : Option LocalIpcSettings} (h : debugLocalIpc a = debugLocalIpc b) :
    a = b := by
  rcases a with - | ⟨policy, keep⟩ <;> rcases b with - | ⟨policy', keep'⟩
  · rfl
  · exact absurd h (by cases policy' <;> cases keep' <;> decide)
  · exact absurd h (by cases policy <;> cases keep <;> decide)
  · cases policy <;> cases keep <;> cases policy' <;> cases keep' <;>
      first | rfl | exact absurd h (by decide)

/-- A controller mark is read in one way. -/
theorem mark_inj {a b : Option LocalIpcSettings}
    (h : encode (controllerMark a) ++ x = encode (controllerMark b) ++ y) : a = b ∧ x = y := by
  simp only [controllerMark, encode_cons, encode_append, List.append_assoc,
    List.append_cancel_left_eq] at h
  have hfields : encode ((debugLocalIpc a).toList ++ nul :: []) ++ x =
      encode ((debugLocalIpc b).toList ++ nul :: []) ++ y := by simpa using h
  obtain ⟨hdebug, hrest⟩ := encode_field_inj (nul_debug a) (nul_debug b) hfields
  exact ⟨debug_inj (String.toList_inj.1 hdebug), by simpa using hrest⟩

theorem digits_inj {m n : Nat} (h : (toString m).toList = (toString n).toList) : m = n := by
  have hdigits : Nat.toDigits 10 m = Nat.toDigits 10 n := by
    simpa [← Nat.toList_repr] using h
  have hvalue := congrArg (Nat.ofDigitChars 10 · 0) hdigits
  simpa [Nat.ofDigitChars_ten_toDigits] using hvalue

theorem space_digits (n : Nat) : ' ' ∉ (toString n).toList := by
  intro hmem
  have hdigit := Nat.isDigit_of_mem_toDigits (b := 10) (n := n) (c := ' ') (by decide) (by decide)
    (by simpa [← Nat.toList_repr] using hmem)
  exact absurd hdigit (by decide)

theorem revision_inj {a b : RevisionId} (h : a.display = b.display) : a = b := by
  have hbytes := congrArg (fun s : String => encode s.toList ++ []) h
  have htext (r : RevisionId) : r.display.toList = "epoch".toList ++ ' ' :: ((toString r.epoch.val).toList ++
      ' ' :: ("generation".toList ++ ' ' :: ((toString r.generation).toList ++
        ' ' :: ('(' :: r.effectiveHash.toList ++ [')'])))) := by
    simp [RevisionId.display, Epoch.display]
  simp only [htext] at hbytes
  obtain ⟨-, hbytes⟩ := encode_field_inj (by decide) (by decide) hbytes
  obtain ⟨hepoch, hbytes⟩ := encode_field_inj (space_digits _) (space_digits _) hbytes
  obtain ⟨-, hbytes⟩ := encode_field_inj (by decide) (by decide) hbytes
  obtain ⟨hgeneration, hbytes⟩ := encode_field_inj (space_digits _) (space_digits _) hbytes
  have hhash : a.effectiveHash = b.effectiveHash := by
    simpa [encode_inj, String.toList_inj] using hbytes
  obtain ⟨ea, ga, ha⟩ := a
  obtain ⟨eb, gb, hb⟩ := b
  obtain rfl := Epoch.ext (digits_inj hepoch)
  obtain rfl := digits_inj hgeneration
  obtain rfl := hhash
  rfl

theorem expectedText_inj {a b : Option RevisionId} (h : expectedText a = expectedText b) :
    a = b := by
  have hsome (r : RevisionId) : expectedText (some r) ≠ [] := by
    simp [expectedText, RevisionId.display]
  cases a with
  | none =>
    cases b with
    | none => rfl
    | some r => exact absurd h.symm (hsome r)
  | some r =>
    cases b with
    | none => exact absurd h (hsome r)
    | some r' => rw [revision_inj (String.toList_inj.1 h)]

end Texts

/-! ## Readings -/

/-- Nothing of the request can be read as anything else: no list and no text of it is absent,
no separator stands in a text before the config, the config and the declared digest hold no
digest mark that could be the last one, and the expected revision, the settings and the config
hold no second controller mark behind what reads as features and a revision. -/
structure Unambiguous (request : ReconcileRequest) : Prop where
  features : request.core.features = []
  version : ∃ version, request.core.version = some version ∧ version ≠ "" ∧ nul ∉ version.toList
  path : nul ∉ request.core.binaryPath.toList
  digest : ∃ digest, request.config.expectedDigest = some digest ∧ digest ≠ "" ∧
    ¬digestMark <:+: digest.toList
  config : ∀ front text, request.config.bytes ≠ front ++ encode (digestMark ++ text)
  mark : ∀ features expected settings rest,
    encode (expectedText request.expectedApplied ++
      controllerMark request.options.localIpc) ++ request.config.bytes =
        encode (settingsText features expected settings) ++ rest →
    featureText features ++ expectedText expected = expectedText request.expectedApplied
  revision : ∀ features expected,
    featureText features ++ expectedText expected = expectedText request.expectedApplied →
    features = []

section Sound

variable {request other : ReconcileRequest} {x y : List UInt8} {a b s t : Text}

/-- Two digest marks, each with a text behind it, at the end of the same bytes. -/
theorem digestMark_shift (h : encode (digestMark ++ s) = x ++ encode (digestMark ++ t)) :
    (x = [] ∧ s = t) ∨ ∃ front, x = encode (digestMark ++ front) ∧ s = front ++ digestMark ++ t := by
  have hword : nul ∉ digestWord := by decide
  have hsplit : encode (digestMark ++ t) = 0 :: encode (digestWord ++ t) := rfl
  rw [hsplit] at h
  obtain ⟨front, rest, hs, rfl, hrest⟩ := encode_ascii (c := nul) rfl (by decide) h
  obtain rfl := encode_inj.1 hrest
  cases front with
  | nil =>
    have hcancel : digestWord ++ s = digestWord ++ t := (List.cons.inj hs).2
    exact .inl ⟨rfl, List.append_cancel_left hcancel⟩
  | cons c front =>
    obtain rfl : nul = c := (List.cons.inj hs).1
    have hbehind : digestWord ++ s = front ++ nul :: (digestWord ++ t) := (List.cons.inj hs).2
    rcases List.append_eq_append_iff.1 hbehind with ⟨more, rfl, hmore⟩ | ⟨more, hmark, hmore⟩
    · exact .inr ⟨more, rfl, by rw [hmore]; simp [digestMark]⟩
    · cases more with
      | nil =>
        have hfront : digestWord = front := by simpa using hmark
        subst hfront
        exact .inr ⟨[], by simp [digestMark], by simpa [digestMark] using hmore.symm⟩
      | cons c more =>
        obtain ⟨rfl, -⟩ := List.cons.inj hmore
        exact absurd (by rw [hmark]; simp) hword

theorem digestMark_cases (h : x ++ encode (digestMark ++ s) = y ++ encode (digestMark ++ t)) :
    (x = y ∧ s = t) ∨
      (∃ front, y = x ++ encode (digestMark ++ front) ∧ s = front ++ digestMark ++ t) ∨
      ∃ front, x = y ++ encode (digestMark ++ front) ∧ t = front ++ digestMark ++ s := by
  rcases List.append_eq_append_iff.1 h with ⟨more, rfl, hmore⟩ | ⟨more, rfl, hmore⟩
  · rcases digestMark_shift hmore with ⟨rfl, rfl⟩ | ⟨front, rfl, hs⟩
    · exact .inl ⟨by simp, rfl⟩
    · exact .inr (.inl ⟨front, rfl, hs⟩)
  · rcases digestMark_shift hmore with ⟨rfl, rfl⟩ | ⟨front, rfl, ht⟩
    · exact .inl ⟨by simp, rfl⟩
    · exact .inr (.inr ⟨front, rfl, ht⟩)

/-- What another request with the same bytes has for the texts up to the settings: the
same ones, or more of them, which then read as features. -/
theorem frontText_cases (hpath : nul ∉ request.core.binaryPath.toList)
    (hversion : nul ∉ (request.core.version.getD "").toList)
    (h : encode (frontText request) ++ x = encode (frontText other) ++ y) :
    request.core.kind = other.core.kind ∧ ∃ more,
      encode (settingsText request.core.features request.expectedApplied
        request.options.localIpc) ++ x =
      encode (settingsText (more ++ other.core.features) other.expectedApplied
        other.options.localIpc) ++ y ∧
      (more = [] → request.core.binaryPath = other.core.binaryPath ∧
        request.core.version.getD "" = other.core.version.getD "") := by
  have behind (text : Text) (features : List String) : text ++ nul ::
      settingsText features other.expectedApplied other.options.localIpc =
      settingsText (String.ofList text :: features) other.expectedApplied
        other.options.localIpc := by
    simp [settingsText]
  obtain ⟨-, h⟩ := encode_field_inj (by decide) (by decide) h
  obtain ⟨hkind, h⟩ := encode_field_inj (nul_kind _) (nul_kind _) h
  refine ⟨kind_display_inj (String.toList_inj.1 hkind), ?_⟩
  rcases encode_field hpath h with ⟨hsame, h⟩ | ⟨path, -, h⟩
  · rcases encode_field hversion h with ⟨hversionSame, h⟩ | ⟨version, -, h⟩
    · exact ⟨[], h, fun _ => ⟨String.toList_inj.1 hsame, String.toList_inj.1 hversionSame⟩⟩
    · rw [behind] at h
      exact ⟨[String.ofList version], h, nofun⟩
  · rcases encode_field hversion h with ⟨-, h⟩ | ⟨version, -, h⟩
    · rw [behind] at h
      exact ⟨[String.ofList _], h, nofun⟩
    · rw [behind, behind] at h
      exact ⟨[String.ofList _, String.ofList _], h, nofun⟩

/-- What stands before the config is read in one way. -/
theorem Unambiguous.front (hr : Unambiguous request)
    (h : encode (frontText request) ++ request.config.bytes = encode (frontText other) ++ y) :
    request.core = other.core ∧ request.expectedApplied = other.expectedApplied ∧
      request.options.localIpc = other.options.localIpc ∧ request.config.bytes = y := by
  obtain ⟨version, hsome, hne, hnul⟩ := hr.version
  obtain ⟨hkind, more, hsettings, hmore⟩ := frontText_cases hr.path (by simpa [hsome] using hnul) h
  rw [hr.features] at hsettings
  have hexpected := hr.mark _ _ _ _ hsettings
  have hfeatures := hr.revision _ _ hexpected
  obtain ⟨rfl, hnone⟩ := List.append_eq_nil_iff.1 hfeatures
  obtain ⟨hpath, hversion⟩ := hmore rfl
  rw [hnone] at hsettings hexpected
  have hrevision : other.expectedApplied = request.expectedApplied :=
    expectedText_inj (by simpa using hexpected)
  have hmarks : encode (controllerMark request.options.localIpc) ++ request.config.bytes =
      encode (controllerMark other.options.localIpc) ++ y := by
    simpa [settingsText, hrevision] using hsettings
  obtain ⟨hipc, hbytes⟩ := mark_inj hmarks
  have hversionSome : other.core.version = some version := by
    cases hother : other.core.version with
    | none => simp [hsome, hother] at hversion; exact absurd hversion hne
    | some v => simpa [hsome, hother] using hversion.symm
  have same {a b : CoreSpec} (hkind : a.kind = b.kind) (hpath : a.binaryPath = b.binaryPath)
      (hversion : a.version = b.version) (hfeatures : a.features = b.features) : a = b := by
    cases a
    cases b
    simp_all
  exact ⟨same hkind hpath (hsome.trans hversionSome.symm) (hr.features.trans hnone.symm),
    hrevision.symm, hipc, hbytes⟩

theorem Unambiguous.same (hr : Unambiguous request)
    (h : (CoreCommand.reconcile other).identityBytes =
      (CoreCommand.reconcile request).identityBytes) : SameWork request other := by
  obtain ⟨digest, hsome, hne, hmark⟩ := hr.digest
  rw [identityBytes_eq, identityBytes_eq] at h
  rcases digestMark_cases h.symm with ⟨hfront, hdigest⟩ | ⟨text, hfront, hdigest⟩ | ⟨text, hfront, -⟩
  · obtain ⟨hcore, hexpected, hipc, hbytes⟩ := hr.front hfront
    refine ⟨hcore, hexpected, hipc, ?_⟩
    have hdigestSome : other.config.expectedDigest = some digest := by
      cases hother : other.config.expectedDigest with
      | none =>
        have hempty : digest = "" := by simpa [hsome, hother] using hdigest
        exact absurd hempty hne
      | some d =>
        have hd : digest = d := by simpa [hsome, hother, String.toList_inj] using hdigest
        rw [hd]
    have same {a b : ConfigInput} (hbytes : a.bytes = b.bytes)
        (hdigest : a.expectedDigest = b.expectedDigest) : a = b := by
      cases a
      cases b
      simp_all
    exact same hbytes (hsome.trans hdigestSome.symm)
  · refine absurd ?_ hmark
    exact ⟨text, _, by simpa [hsome] using hdigest.symm⟩
  · -- the config of the request would hold a digest mark
    have hread : encode (frontText request) ++ request.config.bytes =
        encode (frontText other) ++ (other.config.bytes ++ encode (digestMark ++ text)) := by
      rw [hfront, List.append_assoc]
    obtain ⟨-, -, -, hbytes⟩ := hr.front hread
    exact absurd hbytes (hr.config _ _)

/-- The identity of a reconcile is that of no other command. -/
theorem reconcile_identity_ne (request : ReconcileRequest) (command : CoreCommand)
    (hcommand : ∀ other, command ≠ .reconcile other) :
    command.identityBytes ≠ (CoreCommand.reconcile request).identityBytes := by
  have hhead : (CoreCommand.reconcile request).identityBytes.take 5 = encode "recon".toList := by
    rw [identityBytes_eq, frontText]
    rfl
  intro h
  rw [← h] at hhead
  cases command with
  | reconcile other => exact hcommand other rfl
  | stop | recover | shutdown =>
    simp only [CoreCommand.identityBytes, utf8_eq] at hhead
    exact absurd hhead (by decide +kernel)

end Sound

/-! ## Requests that are mistaken for others -/

section Mistaken

variable {request : ReconcileRequest}

/-- What the other reading of a request would be. -/
theorem Identified.same (h : Identified request) (other : ReconcileRequest)
    (hfront : encode (frontText other) ++ other.config.bytes ++
        encode (digestMark ++ (other.config.expectedDigest.getD "").toList) =
      encode (frontText request) ++ request.config.bytes ++
        encode (digestMark ++ (request.config.expectedDigest.getD "").toList)) :
    SameWork request other := by
  obtain ⟨same, hsame, hwork⟩ := h (.reconcile other) (by simpa only [identityBytes_eq] using hfront)
  cases hsame
  exact hwork

theorem Identified.features (h : Identified request) : request.core.features = [] := by
  cases hfeatures : request.core.features with
  | nil => rfl
  | cons feature rest =>
    -- the version becomes part of the path, and the first feature the version
    have hwork := h.same { request with core := { request.core with
      binaryPath := request.core.binaryPath ++ "\x00" ++ request.core.version.getD ""
      version := some feature, features := rest } } (by
        have hnul : "\x00".toList = [nul] := by decide
        simp [frontText, settingsText, hfeatures, hnul])
    have hsame := congrArg CoreSpec.features hwork.1
    simp [hfeatures] at hsame

theorem Identified.version (h : Identified request) : ∃ version,
    request.core.version = some version ∧ version ≠ "" ∧ nul ∉ version.toList := by
  have swap (version : Option String) (hgetD : version.getD "" = request.core.version.getD "") :
      request.core.version = version := by
    have hwork := h.same { request with core := { request.core with version } } (by
      simp only [frontText, hgetD])
    exact congrArg CoreSpec.version hwork.1
  cases hversion : request.core.version with
  | none =>
    have hsame := swap (some "") (by simp [hversion])
    simp [hversion] at hsame
  | some version =>
    refine ⟨version, rfl, ?_, ?_⟩
    · rintro rfl
      have hsame := swap none (by simp [hversion])
      simp [hversion] at hsame
    · intro hmem
      obtain ⟨front, rest, hsplit⟩ := List.append_of_mem hmem
      have hwork := h.same { request with core := { request.core with
        version := some (String.ofList front)
        features := String.ofList rest :: request.core.features } } (by
          simp [frontText, settingsText, hversion, hsplit])
      have hsame := congrArg (fun core : CoreSpec => core.features.length) hwork.1
      simp at hsame

theorem Identified.path (h : Identified request) : nul ∉ request.core.binaryPath.toList := by
  intro hmem
  obtain ⟨front, rest, hsplit⟩ := List.append_of_mem hmem
  have hwork := h.same { request with core := { request.core with
    binaryPath := String.ofList front
    version := some (String.ofList rest)
    features := request.core.version.getD "" :: request.core.features } } (by
      simp [frontText, settingsText, hsplit])
  have hsame := congrArg (fun core : CoreSpec => core.features.length) hwork.1
  simp at hsame

theorem Identified.digest (h : Identified request) : ∃ digest,
    request.config.expectedDigest = some digest ∧ digest ≠ "" ∧
      ¬digestMark <:+: digest.toList := by
  have swap (digest : Option String)
      (hgetD : digest.getD "" = request.config.expectedDigest.getD "") :
      request.config.expectedDigest = digest := by
    have hwork := h.same { request with config := { request.config with
      expectedDigest := digest } } (by simp only [hgetD]; rfl)
    exact congrArg ConfigInput.expectedDigest hwork.2.2.2
  cases hdigest : request.config.expectedDigest with
  | none =>
    have hsame := swap (some "") (by simp [hdigest])
    simp [hdigest] at hsame
  | some digest =>
    refine ⟨digest, rfl, ?_, ?_⟩
    · rintro rfl
      have hsame := swap none (by simp [hdigest])
      simp [hdigest] at hsame
    · intro hinfix
      obtain ⟨front, rest, hsplit⟩ := hinfix
      have hwork := h.same { request with config := {
        bytes := request.config.bytes ++ encode (digestMark ++ front)
        expectedDigest := some (String.ofList rest) } } (by
          simp only [frontText_config]
          simp [hdigest, ← hsplit])
      have hsame := congrArg (fun config : ConfigInput => config.bytes.length) hwork.2.2.2
      have hpos := size_pos (t := digestMark ++ front) (by simp [digestMark])
      simp only [List.length_append, length_encode] at hsame
      omega

theorem Identified.config (h : Identified request) (front : List UInt8) (text : Text) :
    request.config.bytes ≠ front ++ encode (digestMark ++ text) := by
  intro hbytes
  have hwork := h.same { request with config := {
    bytes := front
    expectedDigest := some (String.ofList text ++ (String.ofList digestMark ++
      request.config.expectedDigest.getD "")) } } (by
      simp only [frontText_config]
      simp [hbytes])
  have hsame := congrArg (fun config : ConfigInput => config.bytes.length) hwork.2.2.2
  have hpos := size_pos (t := digestMark ++ text) (by simp [digestMark])
  simp only [hbytes, List.length_append, length_encode] at hsame
  omega

/-- The settings of another reading are the request's own. -/
theorem Identified.settings (h : Identified request) {features : List String}
    {expected : Option RevisionId} {settings : Option LocalIpcSettings} {rest : List UInt8}
    (hread : encode (settingsText request.core.features request.expectedApplied
      request.options.localIpc) ++ request.config.bytes =
        encode (settingsText features expected settings) ++ rest) :
    features = request.core.features ∧ expected = request.expectedApplied := by
  have hwork := h.same { request with
    core := { request.core with features }
    expectedApplied := expected
    options := { request.options with localIpc := settings }
    config := { request.config with bytes := rest } } (by
      simp [frontText, ← hread])
  exact ⟨(congrArg CoreSpec.features hwork.1).symm, hwork.2.1.symm⟩

theorem Identified.unambiguous (h : Identified request) : Unambiguous request := by
  refine ⟨h.features, h.version, h.path, h.digest, h.config, ?_, ?_⟩
  · intro features expected settings rest hread
    have hsettings := h.settings (show encode (settingsText request.core.features
      request.expectedApplied request.options.localIpc) ++ request.config.bytes =
        encode (settingsText features expected settings) ++ rest by
          simpa [settingsText, h.features] using hread)
    simp [hsettings.1, hsettings.2, h.features]
  · intro features expected htext
    have hsettings := h.settings (show encode (settingsText request.core.features
      request.expectedApplied request.options.localIpc) ++ request.config.bytes =
        encode (settingsText features expected request.options.localIpc) ++ request.config.bytes by
          simp [settingsText, h.features, ← htext])
    rw [hsettings.1, h.features]

end Mistaken

/-- A reconcile is told from every other command by its identity exactly when none of its
texts can be read as another's. -/
theorem identified_iff (request : ReconcileRequest) : Identified request ↔ Unambiguous request := by
  constructor
  · exact Identified.unambiguous
  · intro hr other hbytes
    cases other with
    | reconcile other => exact ⟨other, rfl, hr.same hbytes⟩
    | stop => exact absurd hbytes (reconcile_identity_ne request .stop (by simp))
    | recover => exact absurd hbytes (reconcile_identity_ne request .recover (by simp))
    | shutdown => exact absurd hbytes (reconcile_identity_ne request .shutdown (by simp))

/-- A plain core with a small config, and the digest that the caller declares. -/
def declaredRequest (digest : Option String) : ReconcileRequest where
  core := ⟨.mihomo, "core", none, []⟩
  config := ⟨encode "mixed-port: 7890\n".toList, digest⟩
  options := {}
  expectedApplied := none

/-- A declared digest that is empty is taken for one that is absent. -/
theorem empty_digest_collides :
    (CoreCommand.reconcile (declaredRequest none)).identityBytes =
        (CoreCommand.reconcile (declaredRequest (some ""))).identityBytes ∧
      ¬SameWork (declaredRequest none) (declaredRequest (some "")) := by
  constructor
  · have hfront : frontText (declaredRequest none) = frontText (declaredRequest (some "")) := by
      rw [declaredRequest, declaredRequest, frontText, frontText]
    have hbytes : (declaredRequest none).config.bytes =
        (declaredRequest (some "")).config.bytes := by
      rw [declaredRequest, declaredRequest]
    have hdigest : (declaredRequest none).config.expectedDigest.getD "" =
        (declaredRequest (some "")).config.expectedDigest.getD "" := by
      rw [declaredRequest, declaredRequest]
      simp only [Option.getD_none, Option.getD_some]
    simp only [identityBytes_eq, hfront, hbytes, hdigest]
  · intro hsame
    have hdigest := congrArg ConfigInput.expectedDigest hsame.2.2.2
    cases hdigest

end Chimera.Control
