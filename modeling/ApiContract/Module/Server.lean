/-!
The declarations that handler types are written with, line by line.
-/

namespace ApiContract.Module

def serverLines : List String :=
  [
    "import \x7b Request as ExpressRequest \x7d from \"express\";",
    "",
    "export interface Request<",
    "  Body,",
    "  PathParams extends Record<string, any>,",
    "  QueryParams extends Record<string, any>",
    "> extends ExpressRequest \x7b",
    "  body: Body;",
    "  params: PathParams;",
    "  query: QueryParams;",
    "\x7d",
    "",
    "export type Response<Body> = \x7b",
    "  status: 200 | 400 | 404 | 301 | 302;",
    "  body?: Body;",
    "  headers?: Record<string, string>;",
    "\x7d;",
    "",
    "export interface Handler<",
    "  ReqBody,",
    "  ReqPathParams extends Record<string, any>,",
    "  ReqQueryParams extends Record<string, any>,",
    "  ResBody",
    "> \x7b",
    "  (req: Request<ReqBody, ReqPathParams, ReqQueryParams>): Promise<Response<ResBody>>;",
    "\x7d"
  ]

end ApiContract.Module
