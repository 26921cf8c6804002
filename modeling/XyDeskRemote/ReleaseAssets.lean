/-
# Download links of the current release

A download alias is a fixed path of the site.  The worker sends it on to a file of the current
release on GitHub: an APK alias has an architecture, and the worker takes the first file of the
release whose name is of that architecture.

`abiFromAssetName` guesses the architecture from any name, and a checksum or a mapping has the name
of its APK in its own.
-/
import XyDeskRemote.WorkerText
import Mathlib.Data.List.Infix

open List

namespace ReleaseAssets

open WorkerText

/-! ## The platform -/

/-- A parsed URL. -/
structure Url where
  origin : CodeUnits
  pathname : CodeUnits
  href : CodeUnits

/-- A character of a plain name: `[A-Za-z0-9._-]`. -/
def isPlain (u : UInt16) : Bool := isAlphanumeric u || u ∈ lit "._-"

/-- A path segment that stands for itself in a URL. -/
structure IsSegment (s : CodeUnits) : Prop where
  ne_nil : s ≠ []
  plain : ∀ u ∈ s, isPlain u = true
  not_dot : s ≠ lit "."
  not_dots : s ≠ lit ".."

/-- A path of some segments. -/
def pathOf (segments : List CodeUnits) : CodeUnits := segments.flatMap fun s => lit "/" ++ s

/-- An ASCII letter in lower case. -/
def asciiLower (u : UInt16) : UInt16 := if 0x41 ≤ u && u ≤ 0x5A then u + 0x20 else u

/-- `toLowerCase` and `new URL`.  An ASCII text is lowered letter by letter; a plain path on GitHub
is not changed, and the text of a URL is parsed to that URL. -/
structure Platform where
  toLowerCase : CodeUnits → CodeUnits
  parseUrl : CodeUnits → Option Url
  toLowerCase_ascii : ∀ s, (∀ u ∈ s, u < 0x80) → toLowerCase s = s.map asciiLower
  parseUrl_plain : ∀ segments, segments ≠ [] → (∀ s ∈ segments, IsSegment s) →
    parseUrl (lit "https://github.com" ++ pathOf segments) =
      some ⟨lit "https://github.com", pathOf segments,
        lit "https://github.com" ++ pathOf segments⟩
  parseUrl_href : ∀ {s url}, parseUrl s = some url → parseUrl url.href = some url

/-! ## Releases -/

/-- A file of a release; a field that is no text is missing. -/
structure GithubAsset where
  name : Option CodeUnits
  browser_download_url : Option CodeUnits

/-- `/^v[0-9A-Za-z._-]{1,80}$/`. -/
def isTag (tag : CodeUnits) : Bool :=
  tag.head? = some 0x76 && 2 ≤ tag.length && tag.length ≤ 81 && (tag.drop 1).all isPlain

/-- `/^[A-Za-z0-9._-]{1,160}$/`. -/
def isFileName (name : CodeUnits) : Bool :=
  1 ≤ name.length && name.length ≤ 160 && name.all isPlain

/-- A release that `getLatestPublishedRelease` returns: its tag has passed the pattern. -/
structure Release where
  tag_name : CodeUnits
  isTag_tag_name : isTag tag_name = true
  html_url : Option CodeUnits
  published_at : Option CodeUnits
  assets : List GithubAsset

/-! ## The state of a release -/

/-- The architectures in full. -/
def abiNames : List CodeUnits := [lit "arm64-v8a", lit "armeabi-v7a", lit "x86_64"]

/-- Names that stand for one. -/
def bitNames : List (CodeUnits × CodeUnits) :=
  [(lit "xydesk-remote64bit-x86", lit "x86_64"), (lit "xydesk-remote32bit", lit "armeabi-v7a"),
    (lit "xydesk-remote64bit", lit "arm64-v8a")]

/-- `abiFromAssetName`. -/
def abiFromAssetName (p : Platform) (name : CodeUnits) : Option CodeUnits :=
  let lower := p.toLowerCase name
  if lit "universal" <:+: lower then some (lit "universal")
  else
    match abiNames.find? fun abi => abi <:+: lower with
    | some abi => some abi
    | none => (bitNames.find? fun (token, _) => token <:+: lower).map Prod.snd

/-- An entry of a release's downloads. -/
structure Download where
  abi : Option CodeUnits
  file : Option CodeUnits
  url : Option CodeUnits

/-- The entry of a file that has a name. -/
def downloadOf (p : Platform) (item : GithubAsset) : Option Download :=
  item.name.map fun name => ⟨abiFromAssetName p name, some name, item.browser_download_url⟩

/-- A build of the app. -/
structure AppBuild where
  version : CodeUnits
  version_code : Option Int

/-- `release-state.json`; a field that is no text is missing. -/
structure ReleaseState where
  release_state : Option CodeUnits
  release_tag : Option CodeUnits
  release_url : Option CodeUnits
  published_at : Option CodeUnits
  release_updated_at : Option CodeUnits
  downloads : List Download
  checksums_url : Option CodeUnits
  app_build : Option AppBuild

/-- A text that is not empty. -/
def truthy (s : Option CodeUnits) : Option CodeUnits := s.filter fun t => t ≠ []

/-- `tag.replace(/^v/i, "")`. -/
def versionOf (tag : CodeUnits) : CodeUnits :=
  if tag.head? = some 0x76 ∨ tag.head? = some 0x56 then tag.drop 1 else tag

/-- `releaseStateFromGithub`. -/
def releaseStateFromGithub (p : Platform) (base : ReleaseState) (release : Release) :
    Option ReleaseState := do
  let tag := release.tag_name
  let checksums := release.assets.find? fun item => item.name = some (lit "SHA256SUMS.txt")
  let release_url ← (truthy release.html_url).or <| (encodeURIComponent tag).map
    (lit "https://github.com/xykal/XyDesk-Remote/releases/tag/" ++ ·)
  some
    { release_state := some (lit "published")
      release_tag := some tag
      release_url := some release_url
      published_at := some ((truthy release.published_at).getD (base.published_at.getD []))
      release_updated_at :=
        some ((truthy release.published_at).getD (base.release_updated_at.getD []))
      downloads := release.assets.filterMap (downloadOf p)
      checksums_url := (checksums.bind fun item => item.browser_download_url).or base.checksums_url
      app_build := some
        { version := versionOf tag
          version_code := some <|
            if base.release_tag = some tag then
              (base.app_build.bind fun build => build.version_code).getD 0
            else 0 } }

/-- `getReleaseMetadata`: `base` is the file of the site, if it can be read. -/
def getReleaseMetadata (p : Platform) (base : Option ReleaseState) (release : Option Release) :
    Option ReleaseState := do
  let base ← base
  match release with
  | some release => releaseStateFromGithub p base release
  | none => some base

/-! ## The aliases -/

/-- A file behind an alias. -/
structure Asset where
  repo : CodeUnits
  abi : Option CodeUnits
  fileName : CodeUnits

/-- A file of XyDesk Remote. -/
def remote (abi : Option String) (fileName : String) : Asset :=
  ⟨lit "xykal/XyDesk-Remote", abi.map lit, lit fileName⟩

/-- A file of the older repository. -/
def legacy (fileName : String) : Asset := ⟨lit "xykal/XyDesk", none, lit fileName⟩

/-- The aliases. -/
def qaAssets : List (String × Asset) :=
  [("arm64-v8a.apk", remote "arm64-v8a" "XyDesk-arm64-v8a.apk"),
    ("armeabi-v7a.apk", remote "armeabi-v7a" "XyDesk-armeabi-v7a.apk"),
    ("x86_64.apk", remote "x86_64" "XyDesk-x86_64.apk"),
    ("XyDesk-Remote-arm64-v8a.apk", remote "arm64-v8a" "XyDesk-Remote-arm64-v8a.apk"),
    ("XyDesk-Remote-armeabi-v7a.apk", remote "armeabi-v7a" "XyDesk-Remote-armeabi-v7a.apk"),
    ("XyDesk-Remote-x86_64.apk", remote "x86_64" "XyDesk-Remote-x86_64.apk"),
    ("universal.apk", remote "universal" "XyDesk-RemoteUniversal.apk"),
    ("XyDesk-Remote-universal.apk", remote "universal" "XyDesk-RemoteUniversal.apk"),
    ("XyDesk-RemoteUniversal.apk", remote "universal" "XyDesk-RemoteUniversal.apk"),
    ("XyDesk-Remote-Host-Agent-win64.zip", remote none "XyDesk-Remote-Host-Agent-win64.zip"),
    ("XyDeskRemote.exe", remote none "XyDeskRemote.exe"),
    ("XyDeskRemoteHost.exe", remote none "XyDeskRemote.exe"),
    ("XyDeskRemoteHost-Standalone.exe", remote none "XyDeskRemote.exe"),
    ("XyDesk-Host.exe", remote none "XyDeskRemote.exe"),
    ("xydesk_quic.dll", remote none "xydesk_quic.dll"),
    ("xydesk_host_core.dll", remote none "xydesk_host_core.dll"),
    ("XyDesk-x64.exe", legacy "XyDesk-x64.exe"),
    ("XyDesk-x64.msi", legacy "XyDesk-x64.msi"),
    ("XyDesk-arm64-v8a.apk", legacy "XyDesk-arm64-v8a.apk"),
    ("XyDesk-armeabi-v7a.apk", legacy "XyDesk-armeabi-v7a.apk"),
    ("XyDesk.apk", legacy "XyDesk-arm64-v8a.apk")]

/-- The path of a file of a release. -/
def expectedPath (tag fileName : CodeUnits) : CodeUnits :=
  lit "/xykal/XyDesk-Remote/releases/download/" ++ tag ++ lit "/" ++ fileName

/-- The entry of the current release for an alias. -/
def findEntry (asset : Asset) (entries : List Download) : Option Download :=
  let ofAbi (abi : CodeUnits) := entries.find? fun item => item.abi = some abi
  let entry := match asset.abi with
    | some abi => ofAbi abi
    | none => entries.find? fun item => item.file = some asset.fileName
  if entry.isNone ∧ asset.abi = some (lit "universal") then ofAbi (lit "arm64-v8a") else entry

/-- `currentReleaseAssetUrl`. -/
def currentReleaseAssetUrl (p : Platform) (asset : Asset) (base : Option ReleaseState)
    (release : Option Release) : Option CodeUnits :=
  if asset.repo ≠ lit "xykal/XyDesk-Remote" then none
  else do
    let state ← getReleaseMetadata p base release
    let tag := state.release_tag.getD []
    if !isTag tag then none
    else
      let entry := findEntry asset state.downloads
      let fileName := (truthy (entry.bind fun item => item.file)).getD asset.fileName
      if !isFileName fileName then none
      else
        let path := expectedPath (← encodeURIComponent tag) (← encodeURIComponent fileName)
        match entry.bind fun item => item.url with
        | some configured =>
          let parsed ← p.parseUrl configured
          if parsed.origin = lit "https://github.com" ∧ parsed.pathname = path then
            some parsed.href
          else some (lit "https://github.com" ++ path)
        | none => some (lit "https://github.com" ++ path)

/-! ## What an alias leads to -/

/-- A file with the name of an APK of an architecture. -/
def IsApkOf (p : Platform) (abi : CodeUnits) (item : GithubAsset) : Prop :=
  ∃ name, item.name = some name ∧ lit ".apk" <:+ name ∧ abiFromAssetName p name = some abi

/-- The first file of an architecture. -/
def firstOf (p : Platform) (abi : CodeUnits) (assets : List GithubAsset) : Option GithubAsset :=
  assets.find? fun item => item.name.bind (abiFromAssetName p) = some abi

/-- The first file of an architecture is an APK with a plain name. -/
def FirstIsApk (p : Platform) (abi : CodeUnits) (assets : List GithubAsset) : Prop :=
  ∃ item name, firstOf p abi assets = some item ∧ item.name = some name ∧ lit ".apk" <:+ name ∧
    isFileName name = true

/-- Every file of a release has a download URL of its own: a plain name stands in it, and no two
names share one. -/
structure OwnUrls (release : Release) : Prop where
  plain : ∀ item ∈ release.assets, ∀ name, item.name = some name → isFileName name = true →
    item.browser_download_url =
      some (lit "https://github.com" ++ expectedPath release.tag_name name)
  distinct : ∀ item ∈ release.assets, ∀ other ∈ release.assets,
    item.browser_download_url = other.browser_download_url → item.name = other.name

/-- A URL of a file of a tag. -/
def UnderTag (p : Platform) (tag url : CodeUnits) : Prop :=
  ∃ parsed, p.parseUrl url = some parsed ∧ parsed.origin = lit "https://github.com" ∧
    lit "/xykal/XyDesk-Remote/releases/download/" ++ tag ++ lit "/" <+: parsed.pathname

/-- An alias leads to an APK of its architecture, if there is one, and nowhere but to the files of
the current release. -/
def LeadsToApk (p : Platform) (asset : Asset) (abi : CodeUnits) (base : ReleaseState)
    (release : Release) : Prop :=
  ((∃ item ∈ release.assets, IsApkOf p abi item) →
    ∃ item ∈ release.assets, IsApkOf p abi item ∧ ∃ url, item.browser_download_url = some url ∧
      currentReleaseAssetUrl p asset (some base) (some release) = some url) ∧
  ∀ url, currentReleaseAssetUrl p asset (some base) (some release) = some url →
    UnderTag p release.tag_name url

section Plain

variable {p : Platform} {s tag name abi : CodeUnits}

/-- A plain character is an ASCII character. -/
theorem isPlain_lt {u : UInt16} (h : isPlain u = true) : u.toNat < 0x80 := by
  have hmarks : lit "._-" = [0x2E, 0x5F, 0x2D] := rfl
  simp only [isPlain, isAlphanumeric, hmarks, Bool.or_eq_true, Bool.and_eq_true,
    decide_eq_true_eq, mem_cons, not_mem_nil, or_false, UInt16.le_iff_toNat_le] at h
  rcases h with ((⟨-, h⟩ | ⟨-, h⟩) | ⟨-, h⟩) | rfl | rfl | rfl
  · exact Nat.lt_of_le_of_lt h (by decide)
  · exact Nat.lt_of_le_of_lt h (by decide)
  · exact Nat.lt_of_le_of_lt h (by decide)
  · decide
  · decide
  · decide

/-- A plain character stands for itself in a URI. -/
theorem isPlain_spec {u : UInt16} (h : isPlain u = true) : percentEncode u.toNat = [u] ∧
    Utf8.isHighSurrogate u = false ∧ Utf8.isLowSurrogate u = false := by
  have htable : ∀ n < 0x80, isPlain (UInt16.ofNat n) = true →
      percentEncode (UInt16.ofNat n).toNat = [UInt16.ofNat n] ∧
        Utf8.isHighSurrogate (UInt16.ofNat n) = false ∧
          Utf8.isLowSurrogate (UInt16.ofNat n) = false := by decide
  have hofNat : UInt16.ofNat u.toNat = u := UInt16.ofNat_toNat
  have hu := htable u.toNat (isPlain_lt h)
  rw [hofNat] at hu
  exact hu h

/-- A plain text is its own encoding. -/
theorem encodeURIComponent_plain (h : ∀ u ∈ s, isPlain u = true) :
    encodeURIComponent s = some s := by
  have hunit : ∀ u ∈ s, percentEncode u.toNat = [u] ∧ Utf8.isHighSurrogate u = false ∧
      Utf8.isLowSurrogate u = false := fun u hu => isPlain_spec (h u hu)
  clear h
  induction s with
  | nil => rfl
  | cons u rest ih =>
    obtain ⟨hencode, hhigh, hlow⟩ := hunit u mem_cons_self
    have hrest := ih fun v hv => hunit v (mem_cons_of_mem u hv)
    cases rest with
    | nil => rw [encodeURIComponent, hhigh, hlow, hencode]; rfl
    | cons v rest =>
      rw [encodeURIComponent, hhigh, hlow, hrest, hencode]
      rfl

theorem isTag_plain (h : isTag tag = true) :
    (∀ u ∈ tag, isPlain u = true) ∧ ∃ rest, tag = 0x76 :: rest := by
  simp only [isTag, Bool.and_eq_true, decide_eq_true_eq, all_eq_true] at h
  obtain ⟨⟨⟨hhead, -⟩, -⟩, hrest⟩ := h
  obtain ⟨rest, rfl⟩ := head?_eq_some_iff.1 hhead
  refine ⟨fun u hu => ?_, rest, rfl⟩
  rcases mem_cons.1 hu with rfl | hu
  · decide
  · exact hrest u hu

theorem isFileName_plain (h : isFileName name = true) :
    name ≠ [] ∧ ∀ u ∈ name, isPlain u = true := by
  simp only [isFileName, Bool.and_eq_true, decide_eq_true_eq, all_eq_true] at h
  exact ⟨length_pos_iff.1 h.1.1, h.2⟩

theorem isSegment_tag (h : isTag tag = true) : IsSegment tag := by
  obtain ⟨hplain, rest, rfl⟩ := isTag_plain h
  refine ⟨cons_ne_nil _ _, hplain, fun heq => ?_, fun heq => ?_⟩
  · exact absurd (List.cons.inj heq).1 (by decide)
  · exact absurd (List.cons.inj heq).1 (by decide)

theorem expectedPath_eq (tag name : CodeUnits) : expectedPath tag name =
    pathOf [lit "xykal", lit "XyDesk-Remote", lit "releases", lit "download", tag, name] := by
  have hstart : lit "/xykal/XyDesk-Remote/releases/download/" = lit "/" ++ lit "xykal" ++
      lit "/" ++ lit "XyDesk-Remote" ++ lit "/" ++ lit "releases" ++ lit "/" ++ lit "download" ++
      lit "/" := rfl
  rw [expectedPath, hstart]
  simp [pathOf]

/-- The URL of a file is parsed to its parts. -/
theorem parseUrl_expectedPath (htag : isTag tag = true) (hname : IsSegment name) :
    p.parseUrl (lit "https://github.com" ++ expectedPath tag name) =
      some ⟨lit "https://github.com", expectedPath tag name,
        lit "https://github.com" ++ expectedPath tag name⟩ := by
  rw [expectedPath_eq]
  refine p.parseUrl_plain _ (cons_ne_nil _ _) fun s hs => ?_
  have hfixed : ∀ s ∈ [lit "xykal", lit "XyDesk-Remote", lit "releases", lit "download"],
      s ≠ [] ∧ (∀ u ∈ s, isPlain u = true) ∧ s ≠ lit "." ∧ s ≠ lit ".." := by decide
  rw [show [lit "xykal", lit "XyDesk-Remote", lit "releases", lit "download", tag, name] =
    [lit "xykal", lit "XyDesk-Remote", lit "releases", lit "download"] ++ [tag, name] from rfl,
    mem_append] at hs
  rcases hs with hs | hs
  · obtain ⟨h1, h2, h3, h4⟩ := hfixed s hs
    exact ⟨h1, h2, h3, h4⟩
  · rcases mem_cons.1 hs with rfl | hs
    · exact isSegment_tag htag
    · rwa [mem_singleton.1 hs]

theorem abiFromAssetName_dots (h : name = [] ∨ name = lit "." ∨ name = lit "..") :
    abiFromAssetName p name = none := by
  have hlower : p.toLowerCase name = name := by
    rw [p.toLowerCase_ascii]
    · rcases h with rfl | rfl | rfl <;> rfl
    · rcases h with rfl | rfl | rfl <;> decide
  rw [abiFromAssetName, hlower]
  rcases h with rfl | rfl | rfl <;> decide

theorem isSegment_of_abi (hname : isFileName name = true)
    (habi : abiFromAssetName p name = some abi) : IsSegment name := by
  obtain ⟨hne, hplain⟩ := isFileName_plain hname
  refine ⟨hne, hplain, fun heq => ?_, fun heq => ?_⟩
  · rw [abiFromAssetName_dots (.inr (.inl heq))] at habi
    cases habi
  · rw [abiFromAssetName_dots (.inr (.inr heq))] at habi
    cases habi

theorem truthy_of_abi (habi : abiFromAssetName p name = some abi) :
    truthy (some name) = some name := by
  refine Option.filter_eq_some_iff.2 ⟨rfl, decide_eq_true fun hnil => ?_⟩
  rw [abiFromAssetName_dots (.inl hnil)] at habi
  cases habi

theorem isSegment_fileName {path : String} {asset : Asset} (h : (path, asset) ∈ qaAssets) :
    IsSegment asset.fileName := by
  have htable : ∀ entry ∈ qaAssets, entry.2.fileName ≠ [] ∧
      (∀ u ∈ entry.2.fileName, isPlain u = true) ∧ entry.2.fileName ≠ lit "." ∧
        entry.2.fileName ≠ lit ".." := by decide +kernel
  obtain ⟨h1, h2, h3, h4⟩ := htable _ h
  exact ⟨h1, h2, h3, h4⟩

end Plain

/-! ## Where an alias leads -/

section Links

variable {p : Platform} {asset : Asset} {abi : CodeUnits} {base : ReleaseState} {release : Release}
  {path : String}

/-- The entry for a file of some architecture. -/
theorem find_downloads (assets : List GithubAsset) :
    ((assets.filterMap (downloadOf p)).find? fun item => item.abi = some abi) =
      (firstOf p abi assets).bind (downloadOf p) := by
  rw [find?_filterMap, firstOf]
  congr 2
  funext item
  rw [downloadOf]
  cases item.name <;> rfl

/-- The URL that is returned for an entry and a file name. -/
def urlOf (p : Platform) (tag fileName : CodeUnits) (configured : Option CodeUnits) :
    Option CodeUnits :=
  match configured with
  | some configured => (p.parseUrl configured).map fun parsed =>
    if parsed.origin = lit "https://github.com" ∧
        parsed.pathname = expectedPath tag fileName then
      parsed.href
    else lit "https://github.com" ++ expectedPath tag fileName
  | none => some (lit "https://github.com" ++ expectedPath tag fileName)

/-- What is returned with the state of a release. -/
theorem currentReleaseAssetUrl_eq (hrepo : asset.repo = lit "xykal/XyDesk-Remote") :
    currentReleaseAssetUrl p asset (some base) (some release) =
      let entry := findEntry asset (release.assets.filterMap (downloadOf p))
      let fileName := (truthy (entry.bind fun item => item.file)).getD asset.fileName
      if isFileName fileName then
        urlOf p release.tag_name fileName (entry.bind fun item => item.url)
      else none := by
  have htag := encodeURIComponent_plain (isTag_plain release.isTag_tag_name).1
  obtain ⟨state, hstate, hname, hdownloads⟩ : ∃ state,
      releaseStateFromGithub p base release = some state ∧
        state.release_tag = some release.tag_name ∧
          state.downloads = release.assets.filterMap (downloadOf p) := by
    rw [releaseStateFromGithub, htag]
    cases truthy release.html_url <;> exact ⟨_, rfl, rfl, rfl⟩
  rw [currentReleaseAssetUrl, if_neg (not_not_intro hrepo), getReleaseMetadata]
  simp only [Option.bind_eq_bind, Option.bind_some, hstate, hname, hdownloads, Option.getD_some,
    release.isTag_tag_name, htag]
  generalize findEntry asset (release.assets.filterMap (downloadOf p)) = entry
  generalize (truthy (entry.bind fun item => item.file)).getD asset.fileName = fileName
  by_cases hfile : isFileName fileName = true
  · have hencode := encodeURIComponent_plain (isFileName_plain hfile).2
    simp only [hfile, hencode, urlOf, Bool.not_true, Bool.false_eq_true, if_false, if_true,
      Option.bind_some]
    cases entry.bind fun item => item.url with
    | none => rfl
    | some configured =>
      dsimp only
      cases p.parseUrl configured with
      | none => rfl
      | some parsed =>
        rw [Option.bind_some, Option.map_some]
        split <;> rfl
  · rw [Bool.not_eq_true] at hfile
    simp [hfile]

/-- The file of an architecture that is found. -/
theorem firstOf_some {assets : List GithubAsset} {item : GithubAsset}
    (h : firstOf p abi assets = some item) : item ∈ assets ∧ ∃ name, item.name = some name ∧
      abiFromAssetName p name = some abi ∧
        downloadOf p item = some ⟨some abi, some name, item.browser_download_url⟩ := by
  rw [firstOf] at h
  have hfound := find?_some h
  have habi : item.name.bind (abiFromAssetName p) = some abi := of_decide_eq_true hfound
  obtain ⟨name, hname, habi⟩ := Option.bind_eq_some_iff.1 habi
  refine ⟨mem_of_find?_eq_some h, name, hname, habi, ?_⟩
  rw [downloadOf, hname, Option.map_some, habi]

/-- An entry that is found for an APK alias is one for a file of some architecture. -/
theorem findEntry_some (habi : asset.abi = some abi) {entry : Download}
    (h : findEntry asset (release.assets.filterMap (downloadOf p)) = some entry) :
    ∃ name, entry.file = some name ∧ ∃ found, abiFromAssetName p name = some found := by
  have hof : ∀ found,
      ((release.assets.filterMap (downloadOf p)).find? fun item => item.abi = some found) =
        some entry →
      ∃ name, entry.file = some name ∧ ∃ found, abiFromAssetName p name = some found := by
    intro found hentry
    rw [find_downloads] at hentry
    obtain ⟨item, hitem, hentry⟩ := Option.bind_eq_some_iff.1 hentry
    obtain ⟨-, name, -, habi, hdownload⟩ := firstOf_some hitem
    obtain rfl := Option.some.inj (hdownload.symm.trans hentry)
    exact ⟨name, rfl, found, habi⟩
  simp only [findEntry, habi] at h
  split at h
  · exact hof _ h
  · exact hof _ h

theorem isSegment_link (hasset : (path, asset) ∈ qaAssets) (habi : asset.abi = some abi)
    {entry : Option Download} {fileName : CodeUnits}
    (hentry : findEntry asset (release.assets.filterMap (downloadOf p)) = entry)
    (hname : (truthy (entry.bind fun item => item.file)).getD asset.fileName = fileName)
    (hfile : isFileName fileName = true) : IsSegment fileName := by
  subst hname
  cases entry with
  | none => exact isSegment_fileName hasset
  | some entry =>
    obtain ⟨name, hname, found, hfound⟩ := findEntry_some habi hentry
    rw [Option.bind_some, hname, truthy_of_abi hfound, Option.getD_some] at hfile ⊢
    exact isSegment_of_abi hfile hfound

/-- **Whatever is returned is a file of the current release.** -/
theorem underTag_of_returned (hasset : (path, asset) ∈ qaAssets)
    (hrepo : asset.repo = lit "xykal/XyDesk-Remote") (habi : asset.abi = some abi) {url : CodeUnits}
    (h : currentReleaseAssetUrl p asset (some base) (some release) = some url) :
    UnderTag p release.tag_name url := by
  rw [currentReleaseAssetUrl_eq hrepo] at h
  dsimp only at h
  split at h
  swap
  · cases h
  next hfile =>
  have hsegment := isSegment_link hasset habi rfl rfl hfile
  have hunder : ∀ name, lit "/xykal/XyDesk-Remote/releases/download/" ++ release.tag_name ++
      lit "/" <+: expectedPath release.tag_name name := fun name => prefix_append _ _
  have hfallback := parseUrl_expectedPath (p := p) release.isTag_tag_name hsegment
  unfold urlOf at h
  split at h
  next configured hconfigured =>
    obtain ⟨parsed, hparsed, hurl⟩ := Option.map_eq_some_iff.1 h
    split at hurl
    next hsame =>
      rw [← hurl]
      exact ⟨parsed, p.parseUrl_href hparsed, hsame.1, hsame.2 ▸ hunder _⟩
    next =>
      rw [← hurl]
      exact ⟨_, hfallback, rfl, hunder _⟩
  next =>
    rw [← Option.some.inj h]
    exact ⟨_, hfallback, rfl, hunder _⟩

theorem returned_of_first (hrepo : asset.repo = lit "xykal/XyDesk-Remote")
    (habi : asset.abi = some abi) (hown : OwnUrls release) {item : GithubAsset} {name : CodeUnits}
    (hitem : firstOf p abi release.assets = some item) (hname : item.name = some name) :
    currentReleaseAssetUrl p asset (some base) (some release) =
      if isFileName name then item.browser_download_url else none := by
  obtain ⟨hmem, name', hname', hfound, hdownload⟩ := firstOf_some hitem
  obtain rfl := Option.some.inj (hname.symm.trans hname')
  have hentry : findEntry asset (release.assets.filterMap (downloadOf p)) =
      some ⟨some abi, some name, item.browser_download_url⟩ := by
    simp only [findEntry, habi, find_downloads, hitem, Option.bind_some, hdownload,
      Option.isNone_some, Bool.false_eq_true, false_and, if_false]
  rw [currentReleaseAssetUrl_eq hrepo, hentry]
  simp only [Option.bind_some, truthy_of_abi hfound, Option.getD_some]
  by_cases hfile : isFileName name = true
  · rw [if_pos hfile, if_pos hfile, hown.plain item hmem name hname hfile, urlOf,
      parseUrl_expectedPath release.isTag_tag_name (isSegment_of_abi hfile hfound),
      Option.map_some, if_pos ⟨rfl, rfl⟩]
  · rw [if_neg hfile, if_neg hfile]

/-- **An alias leads to an APK of its architecture** exactly when the first file of the
architecture is one, with a plain name. -/
theorem leadsToApk_iff (hasset : (path, asset) ∈ qaAssets)
    (hrepo : asset.repo = lit "xykal/XyDesk-Remote") (habi : asset.abi = some abi)
    (hown : OwnUrls release) : LeadsToApk p asset abi base release ↔
      ((∃ item ∈ release.assets, IsApkOf p abi item) → FirstIsApk p abi release.assets) := by
  have hunder := fun url (h : currentReleaseAssetUrl p asset (some base) (some release) =
    some url) => underTag_of_returned hasset hrepo habi h
  rw [LeadsToApk, and_iff_left hunder]
  refine forall_congr' fun hapk => ?_
  -- a file of the architecture is found
  obtain ⟨apk, hapkMem, apkName, hapkName, hapkEnd, hapkAbi⟩ := hapk
  obtain ⟨item, hitem⟩ : ∃ item, firstOf p abi release.assets = some item := by
    refine Option.isSome_iff_exists.1 (find?_isSome.2 ⟨apk, hapkMem, decide_eq_true ?_⟩)
    rw [hapkName, Option.bind_some, hapkAbi]
  obtain ⟨hmem, name, hname, hfound, -⟩ := firstOf_some hitem
  rw [returned_of_first hrepo habi hown hitem hname]
  constructor
  · rintro ⟨other, hother, ⟨otherName, hotherName, hend, -⟩, url, hurl, hreturned⟩
    split at hreturned
    next hfile =>
      have hsame := hown.distinct item hmem other hother (hreturned.trans hurl.symm)
      rw [hname, hotherName] at hsame
      exact ⟨item, name, hitem, hname, Option.some.inj hsame ▸ hend, hfile⟩
    next => cases hreturned
  · rintro ⟨item', name', hitem', hname', hend, hfile⟩
    obtain rfl := Option.some.inj (hitem.symm.trans hitem')
    obtain rfl := Option.some.inj (hname.symm.trans hname')
    have hurl := hown.plain item hmem name hname hfile
    refine ⟨item, hmem, ⟨name, hname, hend, hfound⟩, _, hurl, ?_⟩
    rw [if_pos hfile, hurl]

end Links

/-! ## A release with a checksum in front of its APK -/

/-- A platform for plain texts. -/
def samplePlatform : Platform where
  toLowerCase s := s.map asciiLower
  parseUrl s :=
    if lit "https://github.com/" <+: s then
      some ⟨lit "https://github.com", s.drop (lit "https://github.com").length, s⟩
    else none
  toLowerCase_ascii _ _ := rfl
  parseUrl_plain segments hne _ := by
    obtain ⟨s, rest, rfl⟩ := exists_cons_of_ne_nil hne
    have hstem : lit "https://github.com/" <+: lit "https://github.com" ++ pathOf (s :: rest) :=
      ⟨s ++ pathOf rest, by simp [pathOf, lit]⟩
    rw [if_pos hstem, drop_left]
  parseUrl_href h := by
    split at h
    next hstem =>
      obtain rfl := Option.some.inj h
      exact if_pos hstem
    next => cases h

/-- A file of the release `v1.2.0`. -/
def sampleAsset (name : String) : GithubAsset :=
  ⟨some (lit name), some (lit "https://github.com" ++ expectedPath (lit "v1.2.0") (lit name))⟩

/-- The release `v1.2.0` with some files. -/
def sampleRelease (names : List String) : Release :=
  ⟨lit "v1.2.0", by decide, none, none, names.map sampleAsset⟩

/-- Nothing is known. -/
def sampleState : ReleaseState := ⟨none, none, none, none, none, [], none, none⟩

theorem sampleRelease_ownUrls (names : List String) : OwnUrls (sampleRelease names) where
  plain item hitem name hname _ := by
    obtain ⟨text, -, rfl⟩ := mem_map.1 hitem
    obtain rfl := Option.some.inj hname
    rfl
  distinct item hitem other hother h := by
    obtain ⟨text, -, rfl⟩ := mem_map.1 hitem
    obtain ⟨text', -, rfl⟩ := mem_map.1 hother
    have hpath := append_cancel_left (Option.some.inj h)
    rw [expectedPath, expectedPath] at hpath
    exact congrArg some (append_cancel_left hpath)

/-- The files of a release whose checksum stands in front of its APK. -/
def checksumFirst : Release := sampleRelease ["XyDesk-arm64-v8a.apk.sha256", "XyDesk-arm64-v8a.apk"]

/-- The alias of the APK. -/
def arm64Alias : Asset := remote "arm64-v8a" "XyDesk-arm64-v8a.apk"

/-- The alias leads to an APK exactly when the first file of its architecture is one. -/
theorem leadsToApk_iff_arm64 :
    LeadsToApk samplePlatform arm64Alias (lit "arm64-v8a") sampleState checksumFirst ↔
      ((∃ item ∈ checksumFirst.assets, IsApkOf samplePlatform (lit "arm64-v8a") item) →
        FirstIsApk samplePlatform (lit "arm64-v8a") checksumFirst.assets) :=
  leadsToApk_iff mem_cons_self rfl rfl (sampleRelease_ownUrls _)

/-- The alias leads to the checksum. -/
theorem arm64Alias_not_leadsToApk :
    ¬ LeadsToApk samplePlatform arm64Alias (lit "arm64-v8a") sampleState checksumFirst := by
  rintro ⟨h, -⟩
  obtain ⟨item, hitem, ⟨name, hname, hend, -⟩, url, hurl, hreturned⟩ := h
    ⟨sampleAsset "XyDesk-arm64-v8a.apk", mem_cons_of_mem _ mem_cons_self,
      lit "XyDesk-arm64-v8a.apk", rfl, by decide +kernel, by decide +kernel⟩
  have hchecksum : currentReleaseAssetUrl samplePlatform arm64Alias (some sampleState)
      (some checksumFirst) = (sampleAsset "XyDesk-arm64-v8a.apk.sha256").browser_download_url := by
    decide +kernel
  rw [hchecksum] at hreturned
  have hsame := (sampleRelease_ownUrls _).distinct _ mem_cons_self item hitem
    (hreturned.trans hurl.symm)
  -- the only file with this URL is the checksum, and its name does not end in `.apk`
  rw [hname] at hsame
  rw [← Option.some.inj hsame] at hend
  exact absurd hend (by decide +kernel)

end ReleaseAssets
