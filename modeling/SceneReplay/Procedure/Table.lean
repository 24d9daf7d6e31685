import SceneReplay.Procedure.Basic

/-!
# The table of procedures

All procedures that a renderer knows, in the order in which they are listed.
`SceneReplay.Procedure.find?` looks one up by name.
-/

namespace SceneReplay.Procedure

/-- Every procedure, with its positional arguments and whether it accepts
parameters. -/
def all : List Procedure :=
  [
    ⟨"ArchiveBegin", [("name", .token)], true⟩,
    ⟨"ArchiveEnd", [], false⟩,
    ⟨"ReadArchive", [("name", .token), ("callback", .callback)], true⟩,
    ⟨"ObjectBegin", [("name", .token)], false⟩,
    ⟨"ObjectEnd", [], false⟩,
    ⟨"ObjectInstance", [("name", .string)], false⟩,
    ⟨"ArchiveRecord", [("type", .token), ("string", .string)], false⟩,
    ⟨"Declare", [("name", .string), ("declaration", .string)], false⟩,
    ⟨"FrameBegin", [("number", .int)], false⟩,
    ⟨"FrameEnd", [], false⟩,
    ⟨"WorldBegin", [], false⟩,
    ⟨"WorldEnd", [], false⟩,
    ⟨"IfBegin", [("condition", .string)], false⟩,
    ⟨"ElseIf", [("condition", .string)], false⟩,
    ⟨"Else", [], false⟩,
    ⟨"IfEnd", [], false⟩,
    ⟨"Format", [("xresolution", .int), ("yresolution", .int),
      ("pixelaspectratio", .float)], false⟩,
    ⟨"FrameAspectRatio", [("frameratio", .float)], false⟩,
    ⟨"ScreenWindow", [("left", .float), ("right", .float), ("bottom", .float),
      ("top", .float)], false⟩,
    ⟨"CropWindow", [("xmin", .float), ("xmax", .float), ("ymin", .float),
      ("ymax", .float)], false⟩,
    ⟨"Projection", [("name", .token)], true⟩,
    ⟨"Clipping", [("cnear", .float), ("cfar", .float)], false⟩,
    ⟨"ClippingPlane", [("x", .float), ("y", .float), ("z", .float), ("nx", .float),
      ("ny", .float), ("nz", .float)], false⟩,
    ⟨"DepthOfField", [("fstop", .float), ("focallength", .float),
      ("focaldistance", .float)], false⟩,
    ⟨"Shutter", [("opentime", .float), ("closetime", .float)], false⟩,
    ⟨"PixelVariance", [("variance", .float)], false⟩,
    ⟨"PixelSamples", [("xsamples", .float), ("ysamples", .float)], false⟩,
    ⟨"PixelFilter", [("function", .callback), ("xwidth", .float), ("ywidth", .float)], false⟩,
    ⟨"Exposure", [("gain", .float), ("gamma", .float)], false⟩,
    ⟨"Imager", [("name", .token)], true⟩,
    ⟨"Quantize", [("type", .token), ("one", .int), ("min", .int), ("max", .int),
      ("ditheramplitude", .float)], false⟩,
    ⟨"Display", [("name", .token), ("type", .token), ("mode", .token)], true⟩,
    ⟨"Hider", [("name", .token)], true⟩,
    ⟨"ColorSamples", [("nRGB", .floats), ("RGBn", .floats)], false⟩,
    ⟨"RelativeDetail", [("relativedetail", .float)], false⟩,
    ⟨"Option", [("name", .token)], true⟩,
    ⟨"AttributeBegin", [], false⟩,
    ⟨"AttributeEnd", [], false⟩,
    ⟨"Color", [("Cq", .color)], false⟩,
    ⟨"Opacity", [("Os", .color)], false⟩,
    ⟨"TextureCoordinates", [("s1", .float), ("t1", .float), ("s2", .float), ("t2", .float),
      ("s3", .float), ("t3", .float), ("s4", .float), ("t4", .float)], false⟩,
    ⟨"LightSource", [("shadername", .token), ("name", .token)], true⟩,
    ⟨"AreaLightSource", [("shadername", .token), ("name", .token)], true⟩,
    ⟨"Illuminate", [("name", .token), ("onoff", .flag)], false⟩,
    ⟨"Surface", [("name", .token)], true⟩,
    ⟨"Displacement", [("name", .token)], true⟩,
    ⟨"Atmosphere", [("name", .token)], true⟩,
    ⟨"Interior", [("name", .token)], true⟩,
    ⟨"Exterior", [("name", .token)], true⟩,
    ⟨"ShaderLayer", [("type", .token), ("name", .token), ("layername", .token)], true⟩,
    ⟨"ConnectShaderLayers", [("type", .token), ("layer1", .token), ("variable1", .token),
      ("layer2", .token), ("variable2", .token)], false⟩,
    ⟨"ShadingRate", [("size", .float)], false⟩,
    ⟨"ShadingInterpolation", [("type", .token)], false⟩,
    ⟨"Matte", [("onoff", .flag)], false⟩,
    ⟨"Bound", [("bound", .bound)], false⟩,
    ⟨"Detail", [("bound", .bound)], false⟩,
    ⟨"DetailRange", [("offlow", .float), ("onlow", .float), ("onhigh", .float),
      ("offhigh", .float)], false⟩,
    ⟨"GeometricApproximation", [("type", .token), ("value", .float)], false⟩,
    ⟨"Orientation", [("orientation", .token)], false⟩,
    ⟨"ReverseOrientation", [], false⟩,
    ⟨"Sides", [("nsides", .int)], false⟩,
    ⟨"Identity", [], false⟩,
    ⟨"Transform", [("transform", .matrix)], false⟩,
    ⟨"ConcatTransform", [("transform", .matrix)], false⟩,
    ⟨"Perspective", [("fov", .float)], false⟩,
    ⟨"Translate", [("dx", .float), ("dy", .float), ("dz", .float)], false⟩,
    ⟨"Rotate", [("angle", .float), ("dx", .float), ("dy", .float), ("dz", .float)], false⟩,
    ⟨"Scale", [("sx", .float), ("sy", .float), ("sz", .float)], false⟩,
    ⟨"Skew", [("angle", .float), ("dx1", .float), ("dy1", .float), ("dz1", .float),
      ("dx2", .float), ("dy2", .float), ("dz2", .float)], false⟩,
    ⟨"CoordinateSystem", [("space", .token)], false⟩,
    ⟨"CoordSysTransform", [("space", .token)], false⟩,
    ⟨"TransformBegin", [], false⟩,
    ⟨"TransformEnd", [], false⟩,
    ⟨"Resource", [("handle", .token), ("type", .token)], true⟩,
    ⟨"ResourceBegin", [], false⟩,
    ⟨"ResourceEnd", [], false⟩,
    ⟨"Attribute", [("name", .token)], true⟩,
    ⟨"Polygon", [], true⟩,
    ⟨"GeneralPolygon", [("nverts", .ints)], true⟩,
    ⟨"PointsPolygons", [("nverts", .ints), ("verts", .ints)], true⟩,
    ⟨"PointsGeneralPolygons", [("nloops", .ints), ("nverts", .ints), ("verts", .ints)], true⟩,
    ⟨"Basis", [("ubasis", .basis), ("ustep", .int), ("vbasis", .basis),
      ("vstep", .int)], false⟩,
    ⟨"Patch", [("type", .token)], true⟩,
    ⟨"PatchMesh", [("type", .token), ("nu", .int), ("uwrap", .token), ("nv", .int),
      ("vwrap", .token)], true⟩,
    ⟨"NuPatch", [("nu", .int), ("uorder", .int), ("uknot", .floats), ("umin", .float),
      ("umax", .float), ("nv", .int), ("vorder", .int), ("vknot", .floats), ("vmin", .float),
      ("vmax", .float)], true⟩,
    ⟨"TrimCurve", [("ncurves", .ints), ("order", .ints), ("knot", .floats), ("min", .floats),
      ("max", .floats), ("n", .ints), ("u", .floats), ("v", .floats), ("w", .floats)], false⟩,
    ⟨"SubdivisionMesh", [("scheme", .token), ("nvertices", .ints), ("vertices", .ints),
      ("tags", .tokens), ("nargs", .ints), ("intargs", .ints), ("floatargs", .floats)], true⟩,
    ⟨"Sphere", [("radius", .float), ("zmin", .float), ("zmax", .float),
      ("thetamax", .float)], true⟩,
    ⟨"Cone", [("height", .float), ("radius", .float), ("thetamax", .float)], true⟩,
    ⟨"Cylinder", [("radius", .float), ("zmin", .float), ("zmax", .float),
      ("thetamax", .float)], true⟩,
    ⟨"Hyperboloid", [("point1", .point), ("point2", .point), ("thetamax", .float)], true⟩,
    ⟨"Paraboloid", [("rmax", .float), ("zmin", .float), ("zmax", .float),
      ("thetamax", .float)], true⟩,
    ⟨"Disk", [("height", .float), ("radius", .float), ("thetamax", .float)], true⟩,
    ⟨"Torus", [("majorrad", .float), ("minorrad", .float), ("phimin", .float),
      ("phimax", .float), ("thetamax", .float)], true⟩,
    ⟨"Points", [], true⟩,
    ⟨"Curves", [("type", .token), ("nvertices", .ints), ("wrap", .token)], true⟩,
    ⟨"Blobby", [("nleaf", .int), ("code", .ints), ("floats", .floats),
      ("strings", .tokens)], true⟩,
    ⟨"Procedural", [("data", .pointer), ("bound", .bound), ("refineproc", .callback),
      ("freeproc", .callback)], false⟩,
    ⟨"Geometry", [("type", .token)], true⟩,
    ⟨"SolidBegin", [("type", .token)], false⟩,
    ⟨"SolidEnd", [], false⟩,
    ⟨"MotionBegin", [("times", .floats)], false⟩,
    ⟨"MotionEnd", [], false⟩,
    ⟨"MakeTexture", [("imagefile", .string), ("texturefile", .string), ("swrap", .token),
      ("twrap", .token), ("filterfunc", .callback), ("swidth", .float),
      ("twidth", .float)], true⟩,
    ⟨"MakeLatLongEnvironment", [("imagefile", .string), ("reflfile", .string),
      ("filterfunc", .callback), ("swidth", .float), ("twidth", .float)], true⟩,
    ⟨"MakeCubeFaceEnvironment", [("px", .string), ("nx", .string), ("py", .string),
      ("ny", .string), ("pz", .string), ("nz", .string), ("reflfile", .string),
      ("fov", .float), ("filterfunc", .callback), ("swidth", .float),
      ("twidth", .float)], true⟩,
    ⟨"MakeShadow", [("picfile", .string), ("shadowfile", .string)], true⟩,
    ⟨"MakeOcclusion", [("picfiles", .strings), ("shadowfile", .string)], true⟩,
    ⟨"ErrorHandler", [("handler", .callback)], false⟩]

/-- The procedure of the given name. -/
def find? (name : String) : Option Procedure :=
  all.find? fun p => p.name == name

/-- What is found under a name has that name. -/
theorem name_of_find? {name : String} {p : Procedure} (h : find? name = some p) :
    p.name = name := by
  simpa using List.find?_some h

end SceneReplay.Procedure
