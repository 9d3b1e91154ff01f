import Savegame.Variable.Description

/-!
# The engine's variables

The variables with a meaning to the engine, in the order of their indices. Those that are known to
exist but do nothing yet are marked unimplemented.
-/

namespace Savegame

namespace Description

def known (index : UInt16) (name : String) : Description := ⟨index, name, true⟩

def unimplemented (index : UInt16) (name : String) : Description := ⟨index, name, false⟩

end Description

open Description in
def engineDescriptions : List Description := [
  known 14 "CursorTransparency",
  unimplemented 47 "ProjectorAngleX",
  unimplemented 48 "ProjectorAngleY",
  unimplemented 49 "ProjectorAngleZoom",
  unimplemented 50 "ProjectorAngleBlur",
  unimplemented 51 "DraggedWeight",
  unimplemented 57 "DragEnded",
  known 58 "DragLeverSpeed",
  unimplemented 59 "DragPositionFound",
  unimplemented 60 "DragLeverPositionChanged",
  known 61 "LocationAge",
  known 62 "LocationRoom",
  known 63 "LocationNode",
  known 64 "BookSavedAge",
  known 65 "BookSavedRoom",
  known 66 "BookSavedNode",
  known 67 "MenuSavedAge",
  known 68 "MenuSavedRoom",
  known 69 "MenuSavedNode",
  unimplemented 70 "SecondsCountdown",
  unimplemented 71 "FrameCountdown",
  known 84 "InputMousePressed",
  known 88 "InputEscapePressed",
  known 89 "InputTildePressed",
  known 90 "InputSpacePressed",
  known 92 "HotspotActiveRect",
  known 115 "SunspotIntensity",
  known 116 "SunspotColor",
  known 117 "SunspotRadius",
  known 119 "AmbientFadeOutDelay",
  known 120 "AmbientPreviousFadeOutDelay",
  known 131 "CursorLocked",
  known 132 "CursorHidden",
  known 136 "CameraPitch",
  known 137 "CameraHeading",
  known 140 "CameraMinPitch",
  known 141 "CameraMaxPitch",
  unimplemented 142 "MovieOverrideStartFrame",
  unimplemented 143 "MovieOverrideEndFrame",
  unimplemented 144 "MovieVolume1",
  unimplemented 145 "MovieVolume2",
  known 146 "MovieOverrideSubtitles",
  unimplemented 147 "MovieUnk147",
  unimplemented 148 "MovieUnk148",
  unimplemented 149 "MovieConditionBit",
  unimplemented 150 "MoviePreloadToMemory",
  unimplemented 151 "MovieScriptDriven",
  unimplemented 152 "MovieNextFrameSetVar",
  unimplemented 153 "MovieNextFrameGetVar",
  unimplemented 154 "MovieStartFrameVar",
  unimplemented 155 "MovieEndFrameVar",
  unimplemented 156 "MovieForce2d",
  unimplemented 157 "MovieVolumeVar",
  unimplemented 158 "MovieSoundHeading",
  unimplemented 159 "MoviePanningStrength",
  unimplemented 160 "MovieSynchronized",
  unimplemented 161 "MovieUnk161",
  unimplemented 162 "MovieUnk162",
  unimplemented 163 "MovieOverrideCondition",
  unimplemented 164 "MovieUVar",
  unimplemented 165 "MovieVVar",
  unimplemented 166 "MovieOverridePosition",
  unimplemented 167 "MovieOverridePosU",
  unimplemented 168 "MovieOverridePosV",
  unimplemented 169 "MovieScale",
  unimplemented 170 "MovieUnk170",
  unimplemented 171 "MovieUnk171",
  unimplemented 172 "MovieUnk172",
  unimplemented 173 "MoviePlayingVar",
  known 178 "MovieUseBackground",
  unimplemented 179 "CameraSkipAnimation",
  known 180 "MovieAmbientScriptStartFrame",
  known 181 "MovieAmbientScript",
  known 182 "MovieScriptStartFrame",
  known 183 "MovieScript",
  known 185 "CameraMoveSpeed",
  known 189 "LocationNextNode",
  known 190 "LocationNextRoom",
  known 191 "LocationNextAge",
  known 195 "BallPosition",
  known 196 "BallFrame",
  known 197 "BallLeverLeft",
  known 198 "BallLeverRight",
  known 228 "BallDoorOpen",
  known 243 "ProjectorX",
  known 244 "ProjectorY",
  known 245 "ProjectorZoom",
  known 246 "ProjectorBlur",
  known 247 "ProjectorAngleXOffset",
  known 248 "ProjectorAngleYOffset",
  known 249 "ProjectorAngleZoomOffset",
  known 250 "ProjectorAngleBlurOffset",
  known 277 "JournalAtrusState",
  known 279 "JournalSaavedroState",
  known 280 "JournalSaavedroClosed",
  known 281 "JournalSaavedroOpen",
  known 282 "JournalSaavedroLastPage",
  known 283 "JournalSaavedroChapter",
  known 284 "JournalSaavedroPageInChapter",
  known 329 "TeslaAllAligned",
  known 330 "TeslaTopAligned",
  known 331 "TeslaMiddleAligned",
  known 332 "TeslaBottomAligned",
  known 333 "TeslaMovieStart",
  known 444 "ResonanceRingsSolved",
  known 460 "PinballRemainingPegs",
  known 480 "BookStateTomahna",
  known 481 "BookStateReleeshahn",
  known 489 "SymbolCode2Solved",
  known 495 "SymbolCode1AllSolved",
  known 496 "SymbolCode1CurrentSolved",
  known 497 "SymbolCode1TopSolved",
  known 502 "SymbolCode1LeftSolved",
  known 507 "SymbolCode1RightSolved",
  known 1322 "ZipModeEnabled",
  known 1323 "SubtitlesEnabled",
  known 1324 "WaterEffects",
  known 1325 "TransitionSpeed",
  known 1326 "MouseSpeed",
  known 1327 "DialogResult",
  known 1337 "MenuEscapePressed",
  known 1338 "MenuNextAction",
  known 1339 "MenuLoadBack",
  known 1340 "MenuSaveBack",
  known 1341 "MenuSaveAction",
  known 1342 "MenuOptionsBack",
  known 1350 "MenuSaveLoadPageLeft",
  known 1351 "MenuSaveLoadPageRight",
  known 1352 "MenuSaveLoadSelectedItem",
  known 1353 "MenuSaveLoadCurrentPage",
  known 1374 "OverallVolume",
  known 1377 "MusicVolume",
  known 1380 "MusicFrequency",
  known 1393 "LanguageAudio",
  known 1394 "LanguageText",
  known 1396 "HotspotHovered",
  known 1397 "SpotSubtitle",
  unimplemented 1399 "DragLeverLimited",
  unimplemented 1400 "DragLeverLimitMin",
  unimplemented 1401 "DragLeverLimitMax"]

def engineCatalog : Catalog :=
  Catalog.ofList engineDescriptions

/-- A variable of the engine: one of its descriptions. -/
structure EngineVariable where
  description : Description
  listed : description ∈ engineDescriptions

namespace EngineVariable

def index (v : EngineVariable) : UInt16 :=
  v.description.index

def name (v : EngineVariable) : String :=
  v.description.name

/-- The engine's variable with an index, if it has one. -/
def ofIndex? (index : UInt16) : Option EngineVariable :=
  match h : engineDescriptions.find? (·.index = index) with
  | some description => some ⟨description, List.mem_of_find?_eq_some h⟩
  | none => none

end EngineVariable

namespace Variable

def secondsCountdown : UInt16 := 70

def frameCountdown : UInt16 := 71

def locationAge : UInt16 := 61

def locationRoom : UInt16 := 62

def locationNode : UInt16 := 63

def mousePressed : UInt16 := 84

def escapePressed : UInt16 := 88

def tildePressed : UInt16 := 89

def spacePressed : UInt16 := 90

end Variable

end Savegame
