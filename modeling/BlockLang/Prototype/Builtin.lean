import BlockLang.Prototype.Basic

/-!
The built-in statements and reporters.
-/

namespace BlockLang

namespace Prototype

def motionStatements : List Prototype := [
  .plain "move" ["STEPS"] "motion_movesteps",
  .plain "turnright" ["DEGREES"] "motion_turnright",
  .plain "turnleft" ["DEGREES"] "motion_turnleft",
  .plain "goto" ["X", "Y"] "motion_gotoxy",
  .plain "glide" ["SECS", "X", "Y"] "motion_glidesecstoxy",
  .plain "point" ["DIRECTION"] "motion_pointindirection",
  .plain "changex" ["DX"] "motion_changexby",
  .plain "setx" ["X"] "motion_setx",
  .plain "changey" ["DY"] "motion_changeyby",
  .plain "sety" ["Y"] "motion_sety",
  .plain "ifonedgebounce" [] "motion_ifonedgebounce",
  .withField "setrotationstyleleftright" [] "motion_setrotationstyle" "STYLE" "left-right",
  .withField "setrotationstyledontrotate" [] "motion_setrotationstyle" "STYLE" "don't rotate",
  .withField "setrotationstyleallaround" [] "motion_setrotationstyle" "STYLE" "all around"]

def looksStatements : List Prototype := [
  .plain "sayfor" ["MESSAGE", "SECS"] "looks_sayforsecs",
  .plain "say" ["MESSAGE"] "looks_say",
  .plain "thinkfor" ["MESSAGE", "SECS"] "looks_thinkforsecs",
  .plain "think" ["MESSAGE"] "looks_think",
  .plain "switchcostume" ["COSTUME"] "looks_switchcostumeto",
  .plain "nextcostume" [] "looks_nextcostume",
  .plain "switchbackdrop" ["BACKDROP"] "looks_switchbackdropto",
  .plain "nextbackdrop" [] "looks_nextbackdrop",
  .plain "changesize" ["CHANGE"] "looks_changesizeby",
  .plain "setsize" ["SIZE"] "looks_setsizeto",
  .withField "changecoloreffect" ["CHANGE"] "looks_changeeffectby" "EFFECT" "COLOR",
  .withField "changefisheyeeffect" ["CHANGE"] "looks_changeeffectby" "EFFECT" "FISHEYE",
  .withField "changewhirleffect" ["CHANGE"] "looks_changeeffectby" "EFFECT" "WHIRL",
  .withField "changepixelateeffect" ["CHANGE"] "looks_changeeffectby" "EFFECT" "PIXELATE",
  .withField "changemosaiceffect" ["CHANGE"] "looks_changeeffectby" "EFFECT" "MOSAIC",
  .withField "changebrightnesseffect" ["CHANGE"] "looks_changeeffectby" "EFFECT" "BRIGHTNESS",
  .withField "changeghosteffect" ["CHANGE"] "looks_changeeffectby" "EFFECT" "GHOST",
  .withField "setcoloreffect" ["VALUE"] "looks_seteffectto" "EFFECT" "COLOR",
  .withField "setfisheyeeffect" ["VALUE"] "looks_seteffectto" "EFFECT" "FISHEYE",
  .withField "setwhirleffect" ["VALUE"] "looks_seteffectto" "EFFECT" "WHIRL",
  .withField "setpixelateeffect" ["VALUE"] "looks_seteffectto" "EFFECT" "PIXELATE",
  .withField "setmosaiceffect" ["VALUE"] "looks_seteffectto" "EFFECT" "MOSAIC",
  .withField "setbrightnesseffect" ["VALUE"] "looks_seteffectto" "EFFECT" "BRIGHTNESS",
  .withField "setghosteffect" ["VALUE"] "looks_seteffectto" "EFFECT" "GHOST",
  .plain "cleargraphiceffects" [] "looks_cleargraphiceffects",
  .plain "show" [] "looks_show",
  .plain "hide" [] "looks_hide",
  .withField "gotofront" [] "looks_gotofrontback" "FRONT_BACK" "front",
  .withField "gotoback" [] "looks_gotofrontback" "FRONT_BACK" "back",
  .withField "goforward" ["NUM"] "looks_goforwardbackwardlayers" "FORWARD_BACKWARD" "forward",
  .withField "gobackward" ["NUM"] "looks_goforwardbackwardlayers" "FORWARD_BACKWARD" "backward"]

def soundStatements : List Prototype := [
  .plain "stopallsounds" [] "sound_stopallsounds",
  .withField "changepitcheffect" ["VALUE"] "sound_changeeffectby" "EFFECT" "PITCH",
  .withField "changepaneffect" ["VALUE"] "sound_changeeffectby" "EFFECT" "PAN",
  .withField "setpitcheffect" ["VALUE"] "sound_seteffectto" "EFFECT" "PITCH",
  .withField "setpaneffect" ["VALUE"] "sound_seteffectto" "EFFECT" "PAN",
  .plain "clearsoundeffects" [] "sound_cleareffects",
  .plain "changevolume" ["VOLUME"] "sound_changevolumeby",
  .plain "setvolume" ["VOLUME"] "sound_setvolumeto"]

def eventsStatements : List Prototype := [
  .plain "broadcast" ["BROADCAST_INPUT"] "event_broadcast",
  .plain "broadcastandwait" ["BROADCAST_INPUT"] "event_broadcastandwait"]

def controlStatements : List Prototype := [
  .plain "wait" ["DURATION"] "control_wait",
  .plain "waituntil" ["CONDITION"] "control_wait_until",
  .withField "return" [] "control_stop" "STOP_OPTION" "this script",
  .withField "exit" [] "control_stop" "STOP_OPTION" "all",
  .withField "stopotherscripts" [] "control_stop" "STOP_OPTION" "other scripts in sprite",
  .withInput "createclone" [] "control_create_clone_of" "CLONE_OPTION" "_myself_",
  .plain "deletethisclone" [] "control_delete_this_clone"]

def sensingStatements : List Prototype := [
  .plain "ask" ["QUESTION"] "sensing_askandwait",
  .withField "setdraggable" [] "sensing_setdragmode" "DRAG_MODE" "draggable",
  .withField "setnotdraggable" [] "sensing_setdragmode" "DRAG_MODE" "not draggable",
  .plain "resettimer" [] "sensing_resettimer"]

def penStatements : List Prototype := [
  .plain "erase" [] "pen_clear",
  .plain "stamp" [] "pen_stamp",
  .plain "pendown" [] "pen_penDown",
  .plain "penup" [] "pen_penUp",
  .plain "setpencolor" ["COLOR"] "pen_setPenColorToColor",
  .plain "changepensize" ["SIZE"] "pen_changePenSizeBy",
  .plain "setpensize" ["SIZE"] "pen_setPenSizeTo",
  .withInput "changepenhue" ["VALUE"] "pen_changePenColorParamBy" "COLOR_PARAM" "color",
  .withInput "changepensaturation" ["VALUE"] "pen_changePenColorParamBy" "COLOR_PARAM" "saturation",
  .withInput "changepenbrightness" ["VALUE"] "pen_changePenColorParamBy" "COLOR_PARAM" "brightness",
  .withInput "changepentransparency" ["VALUE"] "pen_changePenColorParamBy"
    "COLOR_PARAM" "transparency",
  .withInput "setpenhue" ["VALUE"] "pen_setPenColorParamTo" "COLOR_PARAM" "color",
  .withInput "setpensaturation" ["VALUE"] "pen_setPenColorParamTo" "COLOR_PARAM" "saturation",
  .withInput "setpenbrightness" ["VALUE"] "pen_setPenColorParamTo" "COLOR_PARAM" "brightness",
  .withInput "setpentransparency" ["VALUE"] "pen_setPenColorParamTo" "COLOR_PARAM" "transparency"]

def builtinStatements : List Prototype :=
  motionStatements ++ looksStatements ++ soundStatements ++ eventsStatements ++ controlStatements ++
    sensingStatements ++ penStatements

def motionReporters : List Prototype := [
  .plain "xposition" [] "motion_xposition",
  .plain "yposition" [] "motion_yposition",
  .plain "direction" [] "motion_direction"]

def looksReporters : List Prototype := [
  .withField "costumenumber" [] "looks_costumenumbername" "NUMBER_NAME" "number",
  .withField "costumename" [] "looks_costumenumbername" "NUMBER_NAME" "name",
  .withField "backdropnumber" [] "looks_backdropnumbername" "NUMBER_NAME" "number",
  .withField "backdropname" [] "looks_backdropnumbername" "NUMBER_NAME" "name",
  .plain "size" [] "looks_size"]

def soundReporters : List Prototype := [
  .plain "volume" [] "sound_volume"]

def sensingReporters : List Prototype := [
  .test "mousedown" [] "sensing_mousedown",
  .test "keypressed" ["KEY_OPTION"] "sensing_keypressed",
  .plain "answer" [] "sensing_answer",
  .plain "mousex" [] "sensing_mousex",
  .plain "mousey" [] "sensing_mousey",
  .plain "loudness" [] "sensing_loudness",
  .plain "timer" [] "sensing_timer",
  .plain "username" [] "sensing_username",
  .plain "dayssince2000" [] "sensing_dayssince2000",
  .withField "currentyear" [] "sensing_current" "CURRENTMENU" "YEAR",
  .withField "currentmonth" [] "sensing_current" "CURRENTMENU" "MONTH",
  .withField "currentdate" [] "sensing_current" "CURRENTMENU" "DATE",
  .withField "currentdayofweek" [] "sensing_current" "CURRENTMENU" "DAYOFWEEK",
  .withField "currenthour" [] "sensing_current" "CURRENTMENU" "HOUR",
  .withField "currentminute" [] "sensing_current" "CURRENTMENU" "MINUTE",
  .withField "currentsecond" [] "sensing_current" "CURRENTMENU" "SECOND"]

def operatorsReporters : List Prototype := [
  .plain "add" ["NUM1", "NUM2"] "operator_add",
  .plain "sub" ["NUM1", "NUM2"] "operator_subtract",
  .plain "mul" ["NUM1", "NUM2"] "operator_multiply",
  .plain "div" ["NUM1", "NUM2"] "operator_divide",
  .plain "mod" ["NUM1", "NUM2"] "operator_mod",
  .plain "random" ["FROM", "TO"] "operator_random",
  .plain "join" ["STRING1", "STRING2"] "operator_join",
  .plain "letter" ["LETTER", "STRING"] "operator_letter_of",
  .plain "length" ["STRING"] "operator_length",
  .test "contains" ["STRING1", "STRING2"] "operator_contains",
  .test "eq" ["OPERAND1", "OPERAND2"] "operator_equals",
  .test "lt" ["OPERAND1", "OPERAND2"] "operator_lt",
  .test "gt" ["OPERAND1", "OPERAND2"] "operator_gt",
  .test "AND" ["OPERAND1", "OPERAND2"] "operator_and",
  .test "OR" ["OPERAND1", "OPERAND2"] "operator_or",
  .test "NOT" ["OPERAND"] "operator_not",
  .plain "round" ["NUM"] "operator_round",
  .withField "abs" ["NUM"] "operator_mathop" "OPERATOR" "abs",
  .withField "floor" ["NUM"] "operator_mathop" "OPERATOR" "floor",
  .withField "ceiling" ["NUM"] "operator_mathop" "OPERATOR" "ceiling",
  .withField "sqrt" ["NUM"] "operator_mathop" "OPERATOR" "sqrt",
  .withField "sin" ["NUM"] "operator_mathop" "OPERATOR" "sin",
  .withField "cos" ["NUM"] "operator_mathop" "OPERATOR" "cos",
  .withField "tan" ["NUM"] "operator_mathop" "OPERATOR" "tan",
  .withField "asin" ["NUM"] "operator_mathop" "OPERATOR" "asin",
  .withField "acos" ["NUM"] "operator_mathop" "OPERATOR" "acos",
  .withField "atan" ["NUM"] "operator_mathop" "OPERATOR" "atan",
  .withField "ln" ["NUM"] "operator_mathop" "OPERATOR" "ln",
  .withField "log" ["NUM"] "operator_mathop" "OPERATOR" "log",
  .withField "antiln" ["NUM"] "operator_mathop" "OPERATOR" "e ^",
  .withField "antilog" ["NUM"] "operator_mathop" "OPERATOR" "10 ^"]

def builtinReporters : List Prototype :=
  motionReporters ++ looksReporters ++ soundReporters ++ sensingReporters ++ operatorsReporters

end Prototype

end BlockLang
