import GameScript.Catalog.Basic

/-!
# The core catalog

The object model, the most common nodes and resources, the singletons of the engine and its global
constants.
-/

namespace GameScript.Catalog

open Property

private def fn (name : Text) (returns : DeclaredType) (params : List Property := [])
    (defaults : List Value := []) : Signature :=
  { name, params, defaults, returns }

private def virtual (s : Signature) : Signature := { s with isVirtual := true }

private def static (s : Signature) : Signature := { s with isStatic := true }

private def variadic (s : Signature) : Signature := { s with vararg := true }

private def object (name cls : Text) : Property := ⟨name, .object cls⟩

private def enumArg (name enum : Text) : Property := ⟨name, .enum enum⟩

/-! ### Classes -/

def objectClass : NativeClass where
  name := "Object"
  isInstantiable := true
  methods := [
    fn "get_class" (.of .string),
    fn "is_class" (.of .bool) [arg "class" .string],
    fn "set" .void [arg "property" .stringName, anyArg "value"],
    fn "get" .any [arg "property" .stringName],
    variadic (fn "call" .any [arg "method" .stringName]),
    variadic (fn "call_deferred" .any [arg "method" .stringName]),
    fn "has_method" (.of .bool) [arg "method" .stringName],
    fn "has_signal" (.of .bool) [arg "signal" .stringName],
    variadic (fn "emit_signal" (.enum "Error") [arg "signal" .stringName]),
    fn "connect" (.enum "Error") [arg "signal" .stringName, arg "callable" .callable,
      arg "flags" .int] [.int 0],
    fn "disconnect" .void [arg "signal" .stringName, arg "callable" .callable],
    fn "is_connected" (.of .bool) [arg "signal" .stringName, arg "callable" .callable],
    fn "get_instance_id" (.of .int),
    fn "get_script" .any,
    fn "set_script" .void [anyArg "script"],
    fn "notification" .void [arg "what" .int, arg "reversed" .bool] [.bool false],
    fn "free" .void,
    fn "to_string" (.of .string),
    virtual (fn "_init" .void),
    virtual (fn "_notification" .void [arg "what" .int]),
    virtual (fn "_to_string" (.of .string)),
    virtual (fn "_get" .any [arg "property" .stringName]),
    virtual (fn "_set" (.of .bool) [arg "property" .stringName, anyArg "value"])]
  signals := [
    fn "script_changed" .void, fn "property_list_changed" .void]
  enums := [
    ("ConnectFlags", [⟨"CONNECT_DEFERRED", 1⟩, ⟨"CONNECT_PERSIST", 2⟩, ⟨"CONNECT_ONE_SHOT", 4⟩,
      ⟨"CONNECT_REFERENCE_COUNTED", 8⟩])]
  constants := [
    ⟨"NOTIFICATION_POSTINITIALIZE", 0⟩, ⟨"NOTIFICATION_PREDELETE", 1⟩]

def refCountedClass : NativeClass where
  name := "RefCounted"
  parent := "Object"
  isInstantiable := true
  methods := [
    fn "reference" (.of .bool),
    fn "unreference" (.of .bool),
    fn "get_reference_count" (.of .int)]

def resourceClass : NativeClass where
  name := "Resource"
  parent := "RefCounted"
  isInstantiable := true
  properties := [
    arg "resource_path" .string, arg "resource_name" .string, arg "resource_local_to_scene" .bool]
  methods := [
    fn "duplicate" (.object "Resource") [arg "subresources" .bool] [.bool false],
    fn "get_rid" (.of .int),
    fn "emit_changed" .void]
  signals := [
    fn "changed" .void]

def scriptClass : NativeClass where
  name := "Script"
  parent := "Resource"
  methods := [
    fn "can_instantiate" (.of .bool),
    fn "get_base_script" (.object "Script"),
    fn "get_instance_base_type" (.of .stringName),
    fn "has_source_code" (.of .bool),
    fn "get_source_code" (.of .string),
    fn "reload" (.enum "Error")]

def scriptFileClass : NativeClass where
  name := "GDScript"
  parent := "Script"
  isInstantiable := true
  methods := [
    variadic (fn "new" .any)]

def texture2DClass : NativeClass where
  name := "Texture2D"
  parent := "Resource"
  methods := [
    fn "get_width" (.of .int),
    fn "get_height" (.of .int),
    fn "get_size" (.of .vector2)]

def packedSceneClass : NativeClass where
  name := "PackedScene"
  parent := "Resource"
  isInstantiable := true
  methods := [
    fn "instantiate" (.object "Node") [enumArg "edit_state" "PackedScene.GenEditState"] [.int 0],
    fn "can_instantiate" (.of .bool)]
  enums := [
    ("GenEditState", numbered ["GEN_EDIT_STATE_DISABLED", "GEN_EDIT_STATE_INSTANCE",
      "GEN_EDIT_STATE_MAIN", "GEN_EDIT_STATE_MAIN_INHERITED"])]

def nodeClass : NativeClass where
  name := "Node"
  parent := "Object"
  isInstantiable := true
  properties := [
    arg "name" .stringName, arg "unique_name_in_owner" .bool, arg "scene_file_path" .string,
    object "owner" "Node", enumArg "process_mode" "Node.ProcessMode", arg "process_priority" .int]
  methods := [
    fn "add_child" .void [object "node" "Node", arg "force_readable_name" .bool] [.bool false],
    fn "remove_child" .void [object "node" "Node"],
    fn "get_node" (.object "Node") [arg "path" .nodePath],
    fn "get_node_or_null" (.object "Node") [arg "path" .nodePath],
    fn "has_node" (.of .bool) [arg "path" .nodePath],
    fn "get_parent" (.object "Node"),
    fn "get_children" (.of .array) [arg "include_internal" .bool] [.bool false],
    fn "get_child" (.object "Node") [arg "idx" .int, arg "include_internal" .bool] [.bool false],
    fn "get_child_count" (.of .int) [arg "include_internal" .bool] [.bool false],
    fn "get_tree" (.object "SceneTree"),
    fn "get_path" (.of .nodePath),
    fn "is_inside_tree" (.of .bool),
    fn "is_node_ready" (.of .bool),
    fn "queue_free" .void,
    fn "add_to_group" .void [arg "group" .stringName, arg "persistent" .bool] [.bool false],
    fn "is_in_group" (.of .bool) [arg "group" .stringName],
    fn "set_process" .void [arg "enable" .bool],
    fn "set_physics_process" .void [arg "enable" .bool],
    fn "get_process_delta_time" (.of .float),
    fn "duplicate" (.object "Node") [arg "flags" .int] [.int 15],
    virtual (fn "_ready" .void),
    virtual (fn "_enter_tree" .void),
    virtual (fn "_exit_tree" .void),
    virtual (fn "_process" .void [arg "delta" .float]),
    virtual (fn "_physics_process" .void [arg "delta" .float]),
    virtual (fn "_input" .void [object "event" "InputEvent"]),
    virtual (fn "_unhandled_input" .void [object "event" "InputEvent"])]
  signals := [
    fn "ready" .void, fn "renamed" .void, fn "tree_entered" .void, fn "tree_exiting" .void,
    fn "tree_exited" .void, fn "child_entered_tree" .void [object "node" "Node"]]
  enums := [
    ("ProcessMode", numbered ["PROCESS_MODE_INHERIT", "PROCESS_MODE_PAUSABLE",
      "PROCESS_MODE_WHEN_PAUSED", "PROCESS_MODE_ALWAYS", "PROCESS_MODE_DISABLED"])]
  constants := [
    ⟨"NOTIFICATION_ENTER_TREE", 10⟩, ⟨"NOTIFICATION_EXIT_TREE", 11⟩, ⟨"NOTIFICATION_READY", 13⟩,
    ⟨"NOTIFICATION_PAUSED", 14⟩, ⟨"NOTIFICATION_UNPAUSED", 15⟩,
    ⟨"NOTIFICATION_PHYSICS_PROCESS", 16⟩, ⟨"NOTIFICATION_PROCESS", 17⟩]

def canvasItemClass : NativeClass where
  name := "CanvasItem"
  parent := "Node"
  properties := [
    arg "visible" .bool, arg "modulate" .color, arg "self_modulate" .color, arg "z_index" .int]
  methods := [
    fn "show" .void,
    fn "hide" .void,
    fn "is_visible_in_tree" (.of .bool),
    fn "queue_redraw" .void,
    fn "get_global_mouse_position" (.of .vector2),
    fn "draw_line" .void [arg "from" .vector2, arg "to" .vector2, arg "color" .color,
      arg "width" .float] [.float (-.one)],
    fn "draw_circle" .void [arg "position" .vector2, arg "radius" .float, arg "color" .color],
    virtual (fn "_draw" .void)]
  signals := [
    fn "draw" .void, fn "visibility_changed" .void, fn "hidden" .void]
  constants := [
    ⟨"NOTIFICATION_DRAW", 30⟩, ⟨"NOTIFICATION_VISIBILITY_CHANGED", 31⟩]

def node2DClass : NativeClass where
  name := "Node2D"
  parent := "CanvasItem"
  isInstantiable := true
  properties := [
    arg "position" .vector2, arg "rotation" .float, arg "rotation_degrees" .float,
    arg "scale" .vector2, arg "global_position" .vector2, arg "global_rotation" .float]
  methods := [
    fn "translate" .void [arg "offset" .vector2],
    fn "rotate" .void [arg "radians" .float],
    fn "look_at" .void [arg "point" .vector2],
    fn "get_angle_to" (.of .float) [arg "point" .vector2],
    fn "to_local" (.of .vector2) [arg "global_point" .vector2],
    fn "to_global" (.of .vector2) [arg "local_point" .vector2]]

def sprite2DClass : NativeClass where
  name := "Sprite2D"
  parent := "Node2D"
  isInstantiable := true
  properties := [
    object "texture" "Texture2D", arg "centered" .bool, arg "offset" .vector2, arg "flip_h" .bool,
    arg "flip_v" .bool, arg "frame" .int]
  methods := [
    fn "get_rect" .any,
    fn "is_pixel_opaque" (.of .bool) [arg "pos" .vector2]]
  signals := [
    fn "frame_changed" .void, fn "texture_changed" .void]

def controlClass : NativeClass where
  name := "Control"
  parent := "CanvasItem"
  properties := [
    arg "size" .vector2, arg "position" .vector2, arg "tooltip_text" .string]
  methods := [
    fn "grab_focus" .void,
    fn "has_focus" (.of .bool),
    fn "get_rect" .any]
  signals := [
    fn "resized" .void, fn "focus_entered" .void,
    fn "gui_input" .void [object "event" "InputEvent"]]

def labelClass : NativeClass where
  name := "Label"
  parent := "Control"
  isInstantiable := true
  properties := [
    arg "text" .string, arg "uppercase" .bool]
  methods := [
    fn "get_line_count" (.of .int)]

def node3DClass : NativeClass where
  name := "Node3D"
  parent := "Node"
  isInstantiable := true
  properties := [
    arg "position" .vector3, arg "rotation" .vector3, arg "scale" .vector3, arg "visible" .bool]
  methods := [
    fn "translate" .void [arg "offset" .vector3],
    fn "rotate_y" .void [arg "angle" .float],
    fn "look_at" .void [arg "target" .vector3, arg "up" .vector3] [.vector3 .zero .one .zero]]
  signals := [
    fn "visibility_changed" .void]

def timerClass : NativeClass where
  name := "Timer"
  parent := "Node"
  isInstantiable := true
  properties := [
    arg "wait_time" .float, arg "one_shot" .bool, arg "autostart" .bool, arg "paused" .bool,
    arg "time_left" .float, enumArg "process_callback" "Timer.TimerProcessCallback"]
  methods := [
    fn "start" .void [arg "time_sec" .float] [.float (-.one)],
    fn "stop" .void,
    fn "is_stopped" (.of .bool)]
  signals := [
    fn "timeout" .void]
  enums := [
    ("TimerProcessCallback", numbered ["TIMER_PROCESS_PHYSICS", "TIMER_PROCESS_IDLE"])]

def mainLoopClass : NativeClass where
  name := "MainLoop"
  parent := "Object"
  methods := [
    virtual (fn "_initialize" .void),
    virtual (fn "_process" (.of .bool) [arg "delta" .float]),
    virtual (fn "_finalize" .void)]

def sceneTreeClass : NativeClass where
  name := "SceneTree"
  parent := "MainLoop"
  isInstantiable := true
  properties := [
    arg "paused" .bool, object "current_scene" "Node", object "root" "Node"]
  methods := [
    fn "quit" .void [arg "exit_code" .int] [.int 0],
    fn "create_timer" (.object "SceneTreeTimer") [arg "time_sec" .float,
      arg "process_always" .bool] [.bool true],
    fn "change_scene_to_file" (.enum "Error") [arg "path" .string],
    fn "reload_current_scene" (.enum "Error"),
    fn "get_nodes_in_group" (.of .array) [arg "group" .stringName],
    fn "get_frame" (.of .int)]
  signals := [
    fn "process_frame" .void, fn "physics_frame" .void, fn "tree_changed" .void,
    fn "node_added" .void [object "node" "Node"]]

def sceneTreeTimerClass : NativeClass where
  name := "SceneTreeTimer"
  parent := "RefCounted"
  properties := [
    arg "time_left" .float]
  signals := [
    fn "timeout" .void]

def inputEventClass : NativeClass where
  name := "InputEvent"
  parent := "Resource"
  properties := [
    arg "device" .int]
  methods := [
    fn "is_pressed" (.of .bool),
    fn "is_echo" (.of .bool),
    fn "is_action" (.of .bool) [arg "action" .stringName, arg "exact_match" .bool] [.bool false],
    fn "is_action_pressed" (.of .bool) [arg "action" .stringName, arg "allow_echo" .bool,
      arg "exact_match" .bool] [.bool false, .bool false],
    fn "as_text" (.of .string)]

def inputEventKeyClass : NativeClass where
  name := "InputEventKey"
  parent := "InputEvent"
  isInstantiable := true
  properties := [
    arg "pressed" .bool, enumArg "keycode" "Key", arg "echo" .bool]

def inputClass : NativeClass where
  name := "Input"
  parent := "Object"
  methods := [
    fn "is_action_pressed" (.of .bool) [arg "action" .stringName,
      arg "exact_match" .bool] [.bool false],
    fn "is_action_just_pressed" (.of .bool) [arg "action" .stringName,
      arg "exact_match" .bool] [.bool false],
    fn "get_axis" (.of .float) [arg "negative_action" .stringName,
      arg "positive_action" .stringName],
    fn "get_vector" (.of .vector2) [arg "negative_x" .stringName, arg "positive_x" .stringName,
      arg "negative_y" .stringName, arg "positive_y" .stringName, arg "deadzone" .float]
      [.float (-.one)],
    fn "is_key_pressed" (.of .bool) [enumArg "keycode" "Key"],
    fn "is_mouse_button_pressed" (.of .bool) [enumArg "button" "MouseButton"],
    fn "get_mouse_mode" (.enum "Input.MouseMode"),
    fn "set_mouse_mode" .void [enumArg "mode" "Input.MouseMode"]]
  signals := [
    fn "joy_connection_changed" .void [arg "device" .int, arg "connected" .bool]]
  enums := [
    ("MouseMode", numbered ["MOUSE_MODE_VISIBLE", "MOUSE_MODE_HIDDEN", "MOUSE_MODE_CAPTURED",
      "MOUSE_MODE_CONFINED", "MOUSE_MODE_CONFINED_HIDDEN"])]

def engineClass : NativeClass where
  name := "Engine"
  parent := "Object"
  properties := [
    arg "time_scale" .float, arg "max_fps" .int, arg "physics_ticks_per_second" .int]
  methods := [
    fn "get_frames_per_second" (.of .float),
    fn "get_process_frames" (.of .int),
    fn "is_editor_hint" (.of .bool),
    fn "get_version_info" (.of .dictionary),
    fn "has_singleton" (.of .bool) [arg "name" .stringName]]

def osClass : NativeClass where
  name := "OS"
  parent := "Object"
  methods := [
    fn "get_name" (.of .string),
    fn "get_environment" (.of .string) [arg "variable" .string],
    fn "has_feature" (.of .bool) [arg "tag_name" .string],
    fn "get_ticks_msec" (.of .int),
    fn "get_cmdline_args" (.of .packedStringArray),
    fn "delay_msec" .void [arg "msec" .int]]

def resourceLoaderClass : NativeClass where
  name := "ResourceLoader"
  parent := "Object"
  methods := [
    fn "load" (.object "Resource") [arg "path" .string, arg "type_hint" .string] [.string ""],
    fn "exists" (.of .bool) [arg "path" .string, arg "type_hint" .string] [.string ""]]

def fileAccessClass : NativeClass where
  name := "FileAccess"
  parent := "RefCounted"
  methods := [
    static (fn "open" (.object "FileAccess") [arg "path" .string,
      enumArg "flags" "FileAccess.ModeFlags"]),
    static (fn "file_exists" (.of .bool) [arg "path" .string]),
    static (fn "get_file_as_string" (.of .string) [arg "path" .string]),
    fn "get_line" (.of .string),
    fn "get_as_text" (.of .string),
    fn "store_string" .void [arg "string" .string],
    fn "eof_reached" (.of .bool),
    fn "close" .void]
  enums := [
    ("ModeFlags", [⟨"READ", 1⟩, ⟨"WRITE", 2⟩, ⟨"READ_WRITE", 3⟩, ⟨"WRITE_READ", 7⟩])]

/-- The core classes, parents first. -/
def coreClasses : List NativeClass := [
  objectClass, refCountedClass, resourceClass, scriptClass, scriptFileClass, texture2DClass,
  packedSceneClass, nodeClass, canvasItemClass, node2DClass, sprite2DClass, controlClass,
  labelClass, node3DClass, timerClass, mainLoopClass, sceneTreeClass, sceneTreeTimerClass,
  inputEventClass, inputEventKeyClass, inputClass, engineClass, osClass, resourceLoaderClass,
  fileAccessClass]

/-! ### Global constants -/

/-- The numbers of errors. -/
def errorEntries : List EnumEntry := [
  ⟨"OK", 0⟩, ⟨"FAILED", 1⟩, ⟨"ERR_UNAVAILABLE", 2⟩, ⟨"ERR_UNCONFIGURED", 3⟩,
  ⟨"ERR_UNAUTHORIZED", 4⟩, ⟨"ERR_PARAMETER_RANGE_ERROR", 5⟩, ⟨"ERR_OUT_OF_MEMORY", 6⟩,
  ⟨"ERR_FILE_NOT_FOUND", 7⟩, ⟨"ERR_FILE_BAD_DRIVE", 8⟩, ⟨"ERR_FILE_BAD_PATH", 9⟩,
  ⟨"ERR_FILE_NO_PERMISSION", 10⟩, ⟨"ERR_FILE_ALREADY_IN_USE", 11⟩, ⟨"ERR_FILE_CANT_OPEN", 12⟩,
  ⟨"ERR_FILE_CANT_WRITE", 13⟩, ⟨"ERR_FILE_CANT_READ", 14⟩, ⟨"ERR_FILE_CORRUPT", 16⟩,
  ⟨"ERR_PARSE_ERROR", 43⟩, ⟨"ERR_INVALID_DATA", 30⟩, ⟨"ERR_INVALID_PARAMETER", 31⟩,
  ⟨"ERR_ALREADY_EXISTS", 32⟩, ⟨"ERR_DOES_NOT_EXIST", 33⟩, ⟨"ERR_TIMEOUT", 24⟩, ⟨"ERR_BUSY", 44⟩,
  ⟨"ERR_BUG", 47⟩]

/-- The keys that are no letters and no digits. -/
def specialKeys : List EnumEntry := [
  ⟨"KEY_NONE", 0⟩, ⟨"KEY_SPACE", 32⟩, ⟨"KEY_ESCAPE", 4194305⟩, ⟨"KEY_TAB", 4194306⟩,
  ⟨"KEY_BACKSPACE", 4194308⟩, ⟨"KEY_ENTER", 4194309⟩, ⟨"KEY_LEFT", 4194319⟩, ⟨"KEY_UP", 4194320⟩,
  ⟨"KEY_RIGHT", 4194321⟩, ⟨"KEY_DOWN", 4194322⟩, ⟨"KEY_SHIFT", 4194325⟩, ⟨"KEY_CTRL", 4194326⟩,
  ⟨"KEY_ALT", 4194328⟩]

/-- The keys: letters and digits have their ASCII codes. -/
def keyEntries : List EnumEntry :=
  let key (c : Nat) : EnumEntry := ⟨"KEY_" ++ Text.byte c.toUInt8, Int64.ofNat c⟩
  specialKeys ++ (List.range 26).map (fun i => key (65 + i)) ++
    (List.range 10).map fun i => key (48 + i)

def mouseButtonEntries : List EnumEntry :=
  numbered ["MOUSE_BUTTON_NONE", "MOUSE_BUTTON_LEFT", "MOUSE_BUTTON_RIGHT", "MOUSE_BUTTON_MIDDLE",
    "MOUSE_BUTTON_WHEEL_UP", "MOUSE_BUTTON_WHEEL_DOWN"]

/-- Whether a byte is an upper-case letter. -/
def isUpper (b : UInt8) : Bool := 65 ≤ b && b ≤ 90

/-- A name in upper case with an underscore before each capital that follows no capital. -/
def upperWords (before : UInt8) : List UInt8 → List UInt8
  | [] => []
  | b :: bs =>
    let rest := Text.upperByte b :: upperWords b bs
    if isUpper b && !isUpper before then 95 :: rest else rest

/-- The name of the constant that stands for a type. -/
def typeConstant (t : BuiltinType) : Text :=
  "TYPE_" ++ match t.name.bytes with
    | [] => ""
    | b :: bs => ⟨Text.upperByte b :: upperWords b bs⟩

def typeEntries : List EnumEntry :=
  numbered (BuiltinType.all.map typeConstant ++ [Text.ofString "TYPE_MAX"])

def operatorEntries : List EnumEntry :=
  numbered ["OP_EQUAL", "OP_NOT_EQUAL", "OP_LESS", "OP_LESS_EQUAL", "OP_GREATER", "OP_GREATER_EQUAL",
    "OP_ADD", "OP_SUBTRACT", "OP_MULTIPLY", "OP_DIVIDE", "OP_NEGATE", "OP_POSITIVE", "OP_MODULE",
    "OP_POWER", "OP_SHIFT_LEFT", "OP_SHIFT_RIGHT", "OP_BIT_AND", "OP_BIT_OR", "OP_BIT_XOR",
    "OP_BIT_NEGATE", "OP_AND", "OP_OR", "OP_XOR", "OP_NOT", "OP_IN", "OP_MAX"]

/-- The catalog of the core classes. -/
def core : Catalog :=
  let base : Catalog :=
    { classes := coreClasses
      singletons := [("Engine", "Engine"), ("Input", "Input"), ("OS", "OS"),
        ("ResourceLoader", "ResourceLoader")] }
  let constants := base
    |>.addGlobal "PI" (.float .pi)
    |>.addGlobal "TAU" (.float (.ofInt 2 * .pi))
    |>.addGlobal "INF" (.float .inf)
    |>.addGlobal "NAN" (.float .nan)
  constants
    |>.addGlobalEnum "Error" errorEntries
    |>.addGlobalEnum "Key" keyEntries
    |>.addGlobalEnum "MouseButton" mouseButtonEntries
    |>.addGlobalEnum "Side" (numbered ["SIDE_LEFT", "SIDE_TOP", "SIDE_RIGHT", "SIDE_BOTTOM"])
    |>.addGlobalEnum "Corner" (numbered ["CORNER_TOP_LEFT", "CORNER_TOP_RIGHT",
      "CORNER_BOTTOM_RIGHT", "CORNER_BOTTOM_LEFT"])
    |>.addGlobalEnum "Orientation" (numbered ["VERTICAL", "HORIZONTAL"])
    |>.addGlobalEnum "Variant.Type" typeEntries
    |>.addGlobalEnum "Variant.Operator" operatorEntries

end GameScript.Catalog
